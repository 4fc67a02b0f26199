/-
# Looking up the keys of a map

`zcbor_map_decode` finds the value of each key of its table, wherever in the map it
is: it succeeds exactly if every key is in the map and the decoder of its entry
succeeds, and then each decoder has been run once, on the value of its key. Neither
the order of the map nor what else it holds matters.
-/
import Golioth.Zcbor.Conformance
import Golioth.Zcbor.Walk

namespace Golioth.Zcbor

open CS CS.Cbor

variable {S σ : Type}

/-! ## Keys that are found -/

section Found

variable {entries : List (ZcborMapEntry S σ)} {pairs : List Pair} {pair : Pair}

theorem isSome_place_iff {key : Key} :
    (place entries key).isSome ↔ ∃ entry ∈ entries, entry.key = key := by
  simp [place, List.findIdx?_isSome]

theorem place_eq_none_iff {key : Key} :
    place entries key = none ↔ ∀ entry ∈ entries, key ≠ entry.key := by
  simp [place, List.findIdx?_eq_none_iff, ne_comm]

theorem place_eq_some_iff (hentries : (entries.map ZcborMapEntry.key).Nodup) {i : ℕ}
    {entry : ZcborMapEntry S σ} (hentry : entries[i]? = some entry) {key : Key} :
    place entries key = some i ↔ entry.key = key := by
  constructor
  · intro hplace
    obtain ⟨other, hother, hkey⟩ := getElem?_of_place hplace
    obtain rfl := Option.some_inj.mp (hentry.symm.trans hother)
    exact hkey
  · rintro rfl
    obtain ⟨j, hj⟩ := Option.isSome_iff_exists.mp
      (isSome_place_iff.mpr ⟨entry, List.mem_of_getElem? hentry, rfl⟩)
    obtain ⟨other, hother, hkey⟩ := getElem?_of_place hj
    -- two entries with one key are the same entry
    have hi : (entries.map ZcborMapEntry.key)[i]? = some entry.key := by simp [hentry]
    have hj' : (entries.map ZcborMapEntry.key)[j]? = some entry.key := by simp [hother, hkey]
    obtain ⟨hlt, hget⟩ := List.getElem?_eq_some_iff.mp hi
    obtain ⟨hlt', hget'⟩ := List.getElem?_eq_some_iff.mp hj'
    rw [hj, (hentries.getElem_inj_iff).mp (hget'.trans hget.symm)]

/-- As many pairs have a key of the table as keys of the table are in the map. -/
theorem hits_eq (hentries : (entries.map ZcborMapEntry.key).Nodup)
    (hpairs : (pairs.map Pair.key).Nodup) :
    hits entries pairs =
      ((entries.map ZcborMapEntry.key).filter (· ∈ pairs.map Pair.key)).length := by
  have hfilter : hits entries pairs =
      ((pairs.map Pair.key).filter (· ∈ entries.map ZcborMapEntry.key)).length := by
    rw [hits, ← List.countP_eq_length_filter, List.countP_map]
    exact List.countP_congr fun pair _ => by simp [isSome_place_iff]
  rw [hfilter]
  refine List.Perm.length_eq ((List.perm_ext_iff_of_nodup (hpairs.filter _)
    (hentries.filter _)).mpr fun key => ?_)
  simp only [List.mem_filter, decide_eq_true_eq]
  exact and_comm

theorem hits_le (hentries : (entries.map ZcborMapEntry.key).Nodup)
    (hpairs : (pairs.map Pair.key).Nodup) : hits entries pairs ≤ entries.length := by
  rw [hits_eq hentries hpairs]
  exact (List.length_filter_le _ _).trans_eq (List.length_map _)

theorem hits_eq_length_iff (hentries : (entries.map ZcborMapEntry.key).Nodup)
    (hpairs : (pairs.map Pair.key).Nodup) :
    hits entries pairs = entries.length ↔ ∀ entry ∈ entries, ∃ pair ∈ pairs, pair.key = entry.key := by
  have hlength : (entries.map ZcborMapEntry.key).length = entries.length := List.length_map _
  rw [hits_eq hentries hpairs, ← hlength, List.length_filter_eq_length_iff]
  simp

theorem hits_eq_zero_iff :
    hits entries pairs = 0 ↔ ∀ entry ∈ entries, ∀ pair ∈ pairs, pair.key ≠ entry.key := by
  rw [hits, List.countP_eq_zero]
  constructor
  · intro h entry hentry pair hpair hkey
    exact h pair hpair (isSome_place_iff.mpr ⟨entry, hentry, hkey.symm⟩)
  · intro h pair hpair hplace
    obtain ⟨entry, hentry, hkey⟩ := isSome_place_iff.mp hplace
    exact h entry hentry pair hpair hkey.symm

/-- The last pair with a key of the table. -/
theorem exists_last_hit (h : 0 < hits entries pairs) :
    ∃ done pair after i, pairs = done ++ pair :: after ∧ place entries pair.key = some i ∧
      hits entries after = 0 := by
  induction pairs with
  | nil => exact absurd h (by simp [hits])
  | cons first rest ih =>
    by_cases hrest : 0 < hits entries rest
    · obtain ⟨done, pair, after, i, rfl, hplace, hafter⟩ := ih hrest
      exact ⟨first :: done, pair, after, i, rfl, hplace, hafter⟩
    · cases hplace : place entries first.key with
      | none => simp [hits_cons, hplace, hrest] at h
      | some i => exact ⟨[], first, rest, i, rfl, hplace, by omega⟩

theorem filter_key_eq (hpairs : (pairs.map Pair.key).Nodup) (hpair : pair ∈ pairs) :
    pairs.filter (fun other => decide (other.key = pair.key)) = [pair] := by
  induction pairs with
  | nil => cases hpair
  | cons first rest ih =>
    rw [List.map_cons, List.nodup_cons] at hpairs
    rcases List.mem_cons.mp hpair with rfl | hrest
    · have hnone : rest.filter (fun other => decide (other.key = pair.key)) = [] := by
        simp only [List.filter_eq_nil_iff, decide_eq_true_eq]
        intro other hother hkey
        exact hpairs.1 (List.mem_map.mpr ⟨other, hother, hkey⟩)
      simp [hnone]
    · have hne : first.key ≠ pair.key := fun hkey =>
        hpairs.1 (List.mem_map.mpr ⟨pair, hrest, hkey.symm⟩)
      rw [List.filter_cons_of_neg (by simpa using hne)]
      exact ih hpairs.2 hrest

/-- With different keys there is one value for each. -/
theorem value_of_key (hpairs : (pairs.map Pair.key).Nodup) (hpair : pair ∈ pairs) {key : Key}
    {reads : List UInt8 → Prop} (h : ∃ other ∈ pairs, other.key = key ∧ reads other.value)
    (hkey : pair.key = key) : reads pair.value := by
  obtain ⟨other, hother, hotherKey, hreads⟩ := h
  obtain rfl := List.inj_on_of_nodup_map hpairs hother hpair (hotherKey.trans hkey.symm)
  exact hreads

/-- An entry with another key adds nothing to where a key is. -/
theorem mem_keys_append_singleton {done : List Pair} {key : Key} (hne : pair.key ≠ key) :
    key ∈ (done ++ [pair]).map Pair.key ↔ key ∈ done.map Pair.key := by
  rw [List.map_append, List.mem_append]
  simp [hne.symm]

/-- Every key of the table comes up to the last pair that has one. -/
theorem mem_keys_of_hits_eq_zero {done after : List Pair} {last : Pair}
    (hfound : ∀ entry ∈ entries, ∃ pair ∈ done ++ last :: after, pair.key = entry.key)
    (hafter : hits entries after = 0) :
    ∀ entry ∈ entries, entry.key ∈ (done ++ [last]).map Pair.key := by
  intro entry hentry
  obtain ⟨pair, hpair, hkey⟩ := hfound entry hentry
  rw [List.append_cons] at hpair
  rcases List.mem_append.mp hpair with hdone | hrest
  · exact List.mem_map.mpr ⟨pair, hdone, hkey⟩
  · exact absurd hkey (hits_eq_zero_iff.mp hafter entry hentry pair hrest)

/-- The lookups that have selected an entry are those of the pairs with its key. -/
theorem forall₂_selected {d : Decoding S} {visits : List (Visit S)} (i : ℕ)
    (h : List.Forall₂ (Visit.Of d entries) pairs visits) :
    List.Forall₂ (Visit.Of d entries)
      (pairs.filter fun pair => decide (place entries pair.key = some i))
      (visits.filter fun visit => decide (visit.selected = some i)) := by
  induction h with
  | nil => exact .nil
  | @cons pair visit pairs visits hof _ ih =>
    rw [List.filter_cons, List.filter_cons, hof.selected]
    split
    · exact .cons hof ih
    · exact ih

end Found

/-! ## Ends of the loop -/

section Loop

variable {lib : ZcborDecode S} {d : Decoding S} {entries : List (ZcborMapEntry S σ)}
  {done pairs : List Pair} {last : Pair} {w : Cursor S σ} {p q : Position} {rest : List UInt8}
  {type : ZcborMapKeyType} {inv : List Pair → σ → Prop} {i : ℕ}
  {entry : ZcborMapEntry S σ} {framing : Framing} {err : ℤ}

/-- The decoders of the entries take the values of the pairs one after the other. -/
structure TakesAll (d : Decoding S) (p : Position) (entries : List (ZcborMapEntry S σ))
    (pairs : List Pair) (inv : List Pair → σ → Prop) : Prop where
  takes : ∀ done pair after, pairs = done ++ pair :: after →
    ∀ i entry, place entries pair.key = some i → entries[i]? = some entry →
    Takes d p entry.decode pair.value (inv done) (inv (done ++ [pair]))
  skips : ∀ done pair after, pairs = done ++ pair :: after → place entries pair.key = none →
    ∀ out, inv done out → inv (done ++ [pair]) out

theorem TakesAll.left {pairs' : List Pair} (h : TakesAll d p entries (pairs ++ pairs') inv) :
    TakesAll d p entries pairs inv where
  takes done pair after hsplit := h.takes done pair (after ++ pairs') (by simp [hsplit])
  skips done pair after hsplit := h.skips done pair (after ++ pairs') (by simp [hsplit])

/-- Wherever it stands at a value in a container like the one of a position, a decoder returns the
same, and has taken the value if it returns zero. -/
def Returns (d : Decoding S) (p : Position) (decode : Cursor S σ → Walked S σ)
    (value : List UInt8) (ret : ℤ) : Prop :=
  ∀ w q rest, d.At w.zsd q → p.Alike q → q.HasNext → q.payload = value ++ rest →
    ∃ w', decode w = (some ret, w') ∧ (ret = 0 → d.At w'.zsd (q.next rest))

theorem Returns.takes {decode : Cursor S σ → Walked S σ} {value : List UInt8}
    (h : Returns d p decode value 0) : Takes d p decode value (fun _ => True) fun _ => True := by
  intro w q rest hat halike hnext hpayload _
  obtain ⟨w', hdecode, hat'⟩ := h w q rest hat halike hnext hpayload
  exact ⟨w', hdecode, hat' rfl, trivial⟩

/-- The loop is left at the last of the keys it looks for. -/
theorem Conforms.decodeEntries_last (hlib : Conforms lib d) (before : ZcborMapKey)
    (numDecoded fuel : ℕ) (htable : TypedTable entries type)
    (hpairs : ∀ pair ∈ done ++ [last], pair.WellFormed d.profile ∧ pair.key.type = type)
    (htakes : TakesAll d p entries (done ++ [last]) inv) (hat : d.At w.zsd q)
    (halike : p.Alike q) (hafford : q.Affords (2 * (done.length + 1)))
    (hpayload : q.payload = pairBytes (done ++ [last]) ++ rest) (hinv : inv [] w.out)
    (hplace : place entries last.key = some i)
    (hcount : numDecoded + hits entries done + 1 = entries.length) (hfuel : done.length + 1 < fuel) :
    ∃ visits w', decodeEntries lib entries fuel before numDecoded w =
        (.finished entries.length, visits, w') ∧
      d.At w'.zsd (q.past (2 * (done.length + 1)) rest) ∧ inv (done ++ [last]) w'.out ∧
      List.Forall₂ (Visit.Of d entries) (done ++ [last]) visits := by
  obtain ⟨steps, rfl⟩ : ∃ steps, fuel = done.length + (steps + 2) :=
    ⟨fuel - done.length - 2, by omega⟩
  obtain ⟨hlast, htype⟩ := hpairs last (by simp)
  rw [pairBytes_append, List.append_assoc] at hpayload
  obtain ⟨visits, key, w₁, hloop, hat₁, hinv₁, hvisits⟩ :=
    hlib.decodeEntries_pass before numDecoded (steps + 2) htable
      (fun pair hmem => hpairs pair (List.mem_append_left _ hmem)) htakes.left.takes
      htakes.left.skips (List.nil_append done).symm hat halike (hafford.mono (by omega)) hpayload
      hinv (by omega)
  have hafford₁ : (q.past (2 * done.length) (pairBytes [last] ++ rest)).Affords 2 :=
    Position.Affords.past (hafford.mono (by omega))
  -- the last key
  obtain ⟨entry, hentry, -⟩ := getElem?_of_place hplace
  have hfirst : (q.past (2 * done.length) (pairBytes [last] ++ rest)).payload =
      last.label ++ (last.value ++ rest) := by simp
  obtain ⟨key', w₂, hat₂, hout, hstep⟩ :=
    hlib.decodeNext_hit key hat₁ hafford₁ hfirst hlast.labels htable htype hplace hentry
  have hvalue : ((q.past (2 * done.length) (pairBytes [last] ++ rest)).next
      (last.value ++ rest)).HasNext :=
    (Position.Affords.past (m := 1) (n := 1) hafford₁).hasNext one_pos
  obtain ⟨w₃, hdecode, hat₃, hinv₃⟩ :=
    htakes.takes done last [] rfl i entry hplace hentry w₂ _ rest hat₂ halike.past.past hvalue
      rfl (by rw [hout]; exact hinv₁)
  rw [hdecode] at hstep
  have hstep : decodeNext lib entries key w₁ = .passed ⟨w₂.zsd, key', some i, some 0⟩ w₃ := hstep
  have hlt : numDecoded + hits entries done < entries.length := by omega
  have hexit : decodeEntries lib entries (steps + 1) key' (numDecoded + hits entries done + 1) w₃ =
      (.finished entries.length, [], w₃) := by
    rw [decodeEntries, if_neg (by omega), hcount]
  refine ⟨visits ++ [⟨w₂.zsd, key', some i, some 0⟩], w₃, ?_, ?_, hinv₃, ?_⟩
  · have hlast := decodeEntries_of_passed (steps + 1) hlt hstep
    rw [Visit.count, Option.isSome_some, if_pos rfl, hexit] at hlast
    rw [hloop, hlast]
  · rw [Position.next_eq_past, Position.next_eq_past, Position.past_past, Position.past_past]
      at hat₃
    exact hat₃
  · exact List.rel_append hvisits (.cons ⟨hplace.symm, _, _, hat₂, rfl⟩ .nil)

/-- The loop is left where the map ends. -/
theorem Conforms.decodeEntries_end (hlib : Conforms lib d) (before : ZcborMapKey)
    (numDecoded fuel : ℕ) (htable : TypedTable entries type)
    (hpairs : ∀ pair ∈ pairs, pair.WellFormed d.profile ∧ pair.key.type = type)
    (htakes : TakesAll d p entries pairs inv) (hat : d.At w.zsd q) (halike : p.Alike q)
    (hleft : q.left = leftOf (2 * pairs.length) framing)
    (hpayload : q.payload = pairBytes pairs ++ (framing.close ++ rest)) (hinv : inv [] w.out)
    (hcount : numDecoded + hits entries pairs < entries.length) (hfuel : pairs.length < fuel) :
    ∃ visits w', decodeEntries lib entries fuel before numDecoded w =
        (.finished (numDecoded + hits entries pairs), visits, w') ∧
      d.At w'.zsd (q.past (2 * pairs.length) (framing.close ++ rest)) ∧ inv pairs w'.out ∧
      List.Forall₂ (Visit.Of d entries) pairs visits := by
  obtain ⟨steps, rfl⟩ : ∃ steps, fuel = pairs.length + (steps + 1) :=
    ⟨fuel - pairs.length - 1, by omega⟩
  have hafford : q.Affords (2 * pairs.length) := by
    intro n hn
    rw [hleft] at hn
    cases framing with
    | definite => exact (Option.some_inj.mp hn).le
    | indefinite => cases hn
  obtain ⟨visits, key, w₁, hloop, hat₁, hinv₁, hvisits⟩ :=
    hlib.decodeEntries_pass before numDecoded (steps + 1) htable hpairs htakes.takes htakes.skips
      (List.nil_append pairs).symm hat halike hafford hpayload hinv hcount
  have hleft₁ : (q.past (2 * pairs.length) (framing.close ++ rest)).left = leftOf 0 framing := by
    rw [Position.past, hleft]
    cases framing <;> simp [leftOf]
  have hrecord : d.At (w₁.record (.key w₁.zsd)).zsd _ := hat₁
  obtain ⟨w', hend, hsame⟩ := hlib.atEnd hrecord hleft₁ rfl
  have hlast : decodeEntries lib entries (steps + 1) key (numDecoded + hits entries pairs) w₁ =
      (.finished (numDecoded + hits entries pairs), [], w') := by
    rw [decodeEntries, if_pos hcount, decodeNext, hend]
  refine ⟨visits, w', ?_, ?_, ?_, hvisits⟩
  · rw [hloop, hlast, List.append_nil]
  · rw [hsame.zsd]
    exact hat₁
  · rw [hsame.out]
    exact hinv₁

/-- The loop returns what the first decoder returns that fails. -/
theorem Conforms.decodeEntries_fail (hlib : Conforms lib d) (before : ZcborMapKey)
    (numDecoded fuel : ℕ) (htable : TypedTable entries type)
    (hpairs : ∀ pair ∈ done ++ [last], pair.WellFormed d.profile ∧ pair.key.type = type)
    (htakes : TakesAll d p entries done inv) (hat : d.At w.zsd q) (halike : p.Alike q)
    (hafford : q.Affords (2 * (done.length + 1)))
    (hpayload : q.payload = pairBytes (done ++ [last]) ++ rest) (hinv : inv [] w.out)
    (hplace : place entries last.key = some i) (hentry : entries[i]? = some entry)
    (hfails : ∀ w q rest, d.At w.zsd q → p.Alike q → q.HasNext → q.payload = last.value ++ rest →
      inv done w.out → ∃ w', entry.decode w = (some err, w'))
    (herr : err ≠ 0) (hcount : numDecoded + hits entries done < entries.length)
    (hfuel : done.length < fuel) :
    ∃ visits w', decodeEntries lib entries fuel before numDecoded w =
      (.returned err, visits, w') := by
  obtain ⟨steps, rfl⟩ : ∃ steps, fuel = done.length + (steps + 1) :=
    ⟨fuel - done.length - 1, by omega⟩
  obtain ⟨hlast, htype⟩ := hpairs last (by simp)
  rw [pairBytes_append, List.append_assoc] at hpayload
  obtain ⟨visits, key, w₁, hloop, hat₁, hinv₁, -⟩ :=
    hlib.decodeEntries_pass before numDecoded (steps + 1) htable
      (fun pair hmem => hpairs pair (List.mem_append_left _ hmem)) htakes.takes htakes.skips
      (List.nil_append done).symm hat halike (hafford.mono (by omega)) hpayload hinv hcount
  have hafford₁ : (q.past (2 * done.length) (pairBytes [last] ++ rest)).Affords 2 :=
    Position.Affords.past (hafford.mono (by omega))
  have hfirst : (q.past (2 * done.length) (pairBytes [last] ++ rest)).payload =
      last.label ++ (last.value ++ rest) := by simp
  obtain ⟨key', w₂, hat₂, hout, hstep⟩ :=
    hlib.decodeNext_hit key hat₁ hafford₁ hfirst hlast.labels htable htype hplace hentry
  have hvalue : ((q.past (2 * done.length) (pairBytes [last] ++ rest)).next
      (last.value ++ rest)).HasNext :=
    (Position.Affords.past (m := 1) (n := 1) hafford₁).hasNext one_pos
  obtain ⟨w₃, hdecode⟩ :=
    hfails w₂ _ rest hat₂ halike.past.past hvalue rfl (by rw [hout]; exact hinv₁)
  have hreturns : decodeNext lib entries key w₁ =
      .returned err [⟨w₂.zsd, key', some i, some err⟩] w₃ := by
    rw [hstep, hdecode, Iteration.ofEntry_of_ne herr]
  have hloop' : decodeEntries lib entries (steps + 1) key (numDecoded + hits entries done) w₁ =
      (.returned err, [⟨w₂.zsd, key', some i, some err⟩], w₃) := by
    rw [decodeEntries, if_pos hcount, hreturns]
  exact ⟨visits ++ [⟨w₂.zsd, key', some i, some err⟩], w₃, by rw [hloop, hloop']⟩

end Loop

/-! ## Whole maps -/

/-- The map can be looked up in the table: the keys are all of a type, and different from each
other on either side. -/
structure Matching (d : Decoding S) (type : ZcborMapKeyType)
    (entries : List (ZcborMapEntry S σ)) (pairs : List Pair) : Prop where
  table : TypedTable entries type
  wellFormed : ∀ pair ∈ pairs, pair.WellFormed d.profile ∧ pair.key.type = type
  entryKeys : (entries.map ZcborMapEntry.key).Nodup
  pairKeys : (pairs.map Pair.key).Nodup

section Maps

variable {lib : ZcborDecode S} {d : Decoding S} {entries : List (ZcborMapEntry S σ)}
  {pairs : List Pair} {w : Cursor S σ} {p : Position} {framing : Framing} {rest : List UInt8}
  {type : ZcborMapKeyType} {inv : List Pair → σ → Prop} {fuel : ℕ}

/-- The map is entered, and the loop stands at its pairs. -/
theorem Conforms.enterMap (hlib : Conforms lib d) (hmap : AtMap d framing pairs w.zsd p rest)
    (fuel : ℕ) (entries : List (ZcborMapEntry S σ)) :
    ∃ w₁ : Cursor S σ, d.At w₁.zsd (p.enter (pairBytes pairs ++ (framing.close ++ rest))
        (leftOf (2 * pairs.length) framing)) ∧ w₁.out = w.out ∧
      ∀ {visits : List (Visit S)} {loopEnd w'},
        decodeEntries lib entries fuel (lib.unassignedKey w.zsd) 0 w₁ = (loopEnd, visits, w') →
        zcborMapDecodeVisits lib fuel entries w =
          (visits, afterLoop lib entries.length w' loopEnd) := by
  obtain ⟨item, ⟨head, hopens, rfl⟩, hpayload⟩ := hmap.payload
  rw [List.append_assoc, List.append_assoc] at hpayload
  obtain ⟨zsd', hstart, hat⟩ := hlib.mapStart hmap.stands hmap.hasNext hmap.room hpayload hopens
  refine ⟨{ w with zsd := zsd' }, hat, rfl, fun hloop => ?_⟩
  rw [zcborMapDecodeVisits, hstart]
  dsimp only
  rw [hloop]

theorem Position.affords_enter (p : Position) (count : ℕ) (framing : Framing)
    (rest : List UInt8) : (p.enter rest (leftOf count framing)).Affords count := by
  intro n hleft
  cases framing with
  | definite => exact (Option.some_inj.mp hleft).le
  | indefinite => cases hleft

/-- Leaving the map by force comes back to what is around it. -/
theorem Conforms.forceEnd_inside (hlib : Conforms lib d) (hroom : 0 < p.room) {q : Position}
    {w : Cursor S σ} (hat : d.At w.zsd q) (halike : p.inside.Alike q) (err : ℤ) :
    ∃ w', mapEndDecode lib err w = (some err, w') ∧ d.At w'.zsd (p.next q.payload) ∧
      w'.out = w.out := by
  have houter : q.outer ≠ [] := by
    rw [halike.outer]
    exact List.cons_ne_nil _ _
  obtain ⟨zsd', hend, hat'⟩ := hlib.forceEnd hat houter
  refine ⟨{ w with zsd := zsd' }, by rw [mapEndDecode, okOrReturn, hend]; rfl, ?_, rfl⟩
  have hleave : q.leave q.payload = p.next q.payload := by
    rw [← p.leave_enter hroom p.payload q.payload none, Position.leave, halike.outer, halike.memory,
      halike.room]
    rfl
  rw [← hleave]
  exact hat'

/-- **Every key is found.** The decoders have run on the pairs up to the last one that has a key of
the table, and the payload goes on with the pairs after it. -/
theorem Conforms.mapDecode_complete (hlib : Conforms lib d) (hmap : AtMap d framing pairs w.zsd p rest)
    (hmatching : Matching d type entries pairs) (hfuel : pairs.length < fuel)
    (hne : entries ≠ []) (hfound : ∀ entry ∈ entries, ∃ pair ∈ pairs, pair.key = entry.key)
    (htakes : TakesAll d p.inside entries pairs inv) (hinv : inv [] w.out) :
    ∃ visits w' done last after i,
      zcborMapDecodeVisits lib fuel entries w = (visits, some 0, w') ∧
      pairs = done ++ last :: after ∧ place entries last.key = some i ∧ hits entries after = 0 ∧
      d.At w'.zsd (p.next (pairBytes after ++ (framing.close ++ rest))) ∧
      inv (done ++ [last]) w'.out ∧ List.Forall₂ (Visit.Of d entries) (done ++ [last]) visits := by
  obtain ⟨w₁, hat, hout, hdecode⟩ := hlib.enterMap hmap fuel entries
  have hhits : hits entries pairs = entries.length :=
    (hits_eq_length_iff hmatching.entryKeys hmatching.pairKeys).mpr hfound
  have hpos : 0 < entries.length := List.length_pos_iff.mpr hne
  obtain ⟨done, last, after, i, rfl, hplace, hafter⟩ := exists_last_hit (hpos.trans_eq hhits.symm)
  have hcount : 0 + hits entries done + 1 = entries.length := by
    rw [hits_append, hits_cons, hplace, hafter] at hhits
    simpa using hhits
  have hsplit : done ++ last :: after = (done ++ [last]) ++ after := by simp
  have hbytes : pairBytes (done ++ last :: after) ++ (framing.close ++ rest) =
      pairBytes (done ++ [last]) ++ (pairBytes after ++ (framing.close ++ rest)) := by simp
  rw [List.length_append, List.length_cons] at hfuel
  rw [hsplit] at htakes
  obtain ⟨visits, w₂, hloop, hat₂, hinv₂, hvisits⟩ :=
    hlib.decodeEntries_last (lib.unassignedKey w.zsd) 0 fuel hmatching.table
      (fun pair hmem => hmatching.wellFormed pair (hsplit ▸ List.mem_append_left _ hmem))
      htakes.left hat ⟨rfl, rfl, rfl⟩
      ((p.affords_enter _ framing _).mono
        (by simp only [List.length_append, List.length_cons]; omega))
      hbytes (by rw [hout]; exact hinv) hplace hcount (by omega)
  obtain ⟨w', hend, hat', hout'⟩ := hlib.forceEnd_inside hmap.room hat₂ ⟨rfl, rfl, rfl⟩ 0
  refine ⟨visits, w', done, last, after, i, ?_, rfl, hplace, hafter, hat', ?_, hvisits⟩
  · rw [hdecode hloop, afterLoop, if_neg hpos.ne', if_neg (lt_irrefl _), hend]
  · rw [hout']
    exact hinv₂

/-- **Not every key is found.** The map has been walked through to its end. -/
theorem Conforms.mapDecode_missing (hlib : Conforms lib d) (hmap : AtMap d framing pairs w.zsd p rest)
    (hmatching : Matching d type entries pairs) (hfuel : pairs.length < fuel)
    (hmissing : hits entries pairs < entries.length)
    (htakes : TakesAll d p.inside entries pairs inv) (hinv : inv [] w.out) :
    ∃ visits w', zcborMapDecodeVisits lib fuel entries w =
      (visits, some (if hits entries pairs = 0 then -Errno.enoent else -Errno.ebadmsg), w') := by
  obtain ⟨w₁, hat, hout, hdecode⟩ := hlib.enterMap hmap fuel entries
  obtain ⟨visits, w₂, hloop, hat₂, -, -⟩ :=
    hlib.decodeEntries_end (lib.unassignedKey w.zsd) 0 fuel hmatching.table hmatching.wellFormed htakes
      hat ⟨rfl, rfl, rfl⟩ rfl rfl (by rw [hout]; exact hinv) (by omega) hfuel
  rw [Nat.zero_add] at hloop
  rw [hdecode hloop, afterLoop]
  split
  · obtain ⟨w', hend, -⟩ := hlib.forceEnd_inside hmap.room hat₂ ⟨rfl, rfl, rfl⟩ (-Errno.enoent)
    exact ⟨visits, w', by rw [hend]⟩
  · exact ⟨visits, w₂, rfl⟩

/-- **A decoder fails.** Its error is what is returned. -/
theorem Conforms.mapDecode_fail (hlib : Conforms lib d) {done after : List Pair} {last : Pair}
    (hmap : AtMap d framing (done ++ last :: after) w.zsd p rest)
    (hmatching : Matching d type entries (done ++ last :: after))
    (hfuel : (done ++ last :: after).length < fuel)
    (htakes : TakesAll d p.inside entries done inv) (hinv : inv [] w.out) {i : ℕ}
    {entry : ZcborMapEntry S σ} {err : ℤ} (hplace : place entries last.key = some i)
    (hentry : entries[i]? = some entry)
    (hfails : ∀ w q rest, d.At w.zsd q → p.inside.Alike q → q.HasNext →
      q.payload = last.value ++ rest → inv done w.out → ∃ w', entry.decode w = (some err, w'))
    (herr : err ≠ 0) :
    ∃ visits w', zcborMapDecodeVisits lib fuel entries w = (visits, some err, w') := by
  obtain ⟨w₁, hat, hout, hdecode⟩ := hlib.enterMap hmap fuel entries
  have hsplit : done ++ last :: after = (done ++ [last]) ++ after := by simp
  have hbytes : pairBytes (done ++ last :: after) ++ (framing.close ++ rest) =
      pairBytes (done ++ [last]) ++ (pairBytes after ++ (framing.close ++ rest)) := by simp
  have hcount : hits entries done < entries.length := by
    have hle := hits_le hmatching.entryKeys hmatching.pairKeys
    rw [hits_append, hits_cons, hplace, Option.isSome_some, if_pos rfl] at hle
    omega
  rw [List.length_append, List.length_cons] at hfuel
  obtain ⟨visits, w', hloop⟩ :=
    hlib.decodeEntries_fail (lib.unassignedKey w.zsd) 0 fuel hmatching.table
      (fun pair hmem => hmatching.wellFormed pair (hsplit ▸ List.mem_append_left _ hmem))
      htakes hat ⟨rfl, rfl, rfl⟩ ((p.affords_enter _ framing _).mono
        (by simp only [List.length_append, List.length_cons]; omega))
      hbytes (by rw [hout]; exact hinv) hplace hentry hfails herr
      (by omega) (by omega)
  exact ⟨visits, w', by rw [hdecode hloop]; rfl⟩

end Maps

/-! ## The lookup -/

/-- The decoder of the entry for the key of a pair fails on its value. -/
def Pair.Fails (entries : List (ZcborMapEntry S σ)) (outcome : ℕ → List UInt8 → ℤ)
    (pair : Pair) : Prop :=
  ∃ i, place entries pair.key = some i ∧ outcome i pair.value ≠ 0

/-- A state stands at a map of the pairs, which can be looked up in the table, and what the
decoders of the table return depends on the values only. -/
structure Looking (d : Decoding S) (type : ZcborMapKeyType) (entries : List (ZcborMapEntry S σ))
    (outcome : ℕ → List UInt8 → ℤ) (pairs : List Pair) (fuel : ℕ) (zsd : S) : Prop where
  matching : Matching d type entries pairs
  fuel : pairs.length < fuel
  map : ∃ p framing rest, AtMap d framing pairs zsd p rest ∧
    ∀ i entry, entries[i]? = some entry → ∀ pair ∈ pairs, pair.key = entry.key →
      Returns d p.inside entry.decode pair.value (outcome i pair.value)

/-- No decoder returns `-ENOENT` itself. -/
def NeverEnoent (entries : List (ZcborMapEntry S σ)) (outcome : ℕ → List UInt8 → ℤ)
    (pairs : List Pair) : Prop :=
  ∀ pair ∈ pairs, ∀ i, place entries pair.key = some i → outcome i pair.value ≠ -Errno.enoent

/-- What a lookup comes to. -/
structure LookedUp (d : Decoding S) (entries : List (ZcborMapEntry S σ))
    (outcome : ℕ → List UInt8 → ℤ) (pairs : List Pair) (visits : List (Visit S)) (ret : ℤ) :
    Prop where
  zero_iff : ret = 0 ↔ ∀ i entry, entries[i]? = some entry →
    ∃ pair ∈ pairs, pair.key = entry.key ∧ outcome i pair.value = 0
  once : ret = 0 → ∀ i entry, entries[i]? = some entry →
    ∀ pair ∈ pairs, pair.key = entry.key →
      ∃ visit, visits.filter (fun visit => decide (visit.selected = some i)) = [visit] ∧
        visit.Of d entries pair
  enoent_iff : NeverEnoent entries outcome pairs →
    (ret = -Errno.enoent ↔ ∀ entry ∈ entries, ∀ pair ∈ pairs, pair.key ≠ entry.key)
  fails : (∃ pair ∈ pairs, pair.Fails entries outcome) →
    ∃ pair ∈ pairs, ∃ i, place entries pair.key = some i ∧ outcome i pair.value = ret ∧ ret ≠ 0
  misses : (∀ pair ∈ pairs, ¬ pair.Fails entries outcome) →
    hits entries pairs < entries.length →
    ret = if hits entries pairs = 0 then -Errno.enoent else -Errno.ebadmsg

section Lookup

variable {lib : ZcborDecode S} {d : Decoding S} {entries : List (ZcborMapEntry S σ)}
  {outcome : ℕ → List UInt8 → ℤ} {pairs pairs' : List Pair} {w : Cursor S σ} {p : Position}
  {type : ZcborMapKeyType} {fuel : ℕ}

theorem exists_first {α : Type*} {l : List α} {P : α → Prop} (h : ∃ a ∈ l, P a) :
    ∃ before a after, l = before ++ a :: after ∧ P a ∧ ∀ b ∈ before, ¬ P b := by
  induction l with
  | nil => simp at h
  | cons b l ih =>
    by_cases hb : P b
    · exact ⟨[], b, l, rfl, hb, by simp⟩
    · obtain ⟨before, a, after, rfl, ha, hbefore⟩ := ih (by simpa [hb] using h)
      exact ⟨b :: before, a, after, rfl, ha, List.forall_mem_cons.mpr ⟨hb, hbefore⟩⟩

/-- Where no decoder fails, each takes its value. -/
theorem takesAll_of_returns
    (hreturns : ∀ i entry, entries[i]? = some entry → ∀ pair ∈ pairs, pair.key = entry.key →
      Returns d p entry.decode pair.value (outcome i pair.value))
    (hnone : ∀ pair ∈ pairs, ¬ pair.Fails entries outcome) :
    TakesAll d p entries pairs fun _ _ => True where
  takes := by
    intro done pair after hsplit i entry hplace hentry
    have hmem : pair ∈ pairs := by simp [hsplit]
    obtain ⟨other, hother, hkey⟩ := getElem?_of_place hplace
    obtain rfl := Option.some_inj.mp (hentry.symm.trans hother)
    have hzero : outcome i pair.value = 0 := by
      by_contra hne
      exact hnone pair hmem ⟨i, hplace, hne⟩
    have htakes := hreturns i entry hentry pair hmem hkey.symm
    rw [hzero] at htakes
    exact htakes.takes
  skips _ _ _ _ _ _ _ := trivial

/-- The lookup of a map in which a decoder fails. -/
theorem lookedUp_of_fails (hlib : Conforms lib d) (h : Looking d type entries outcome pairs fuel w.zsd)
    (hfails : ∃ pair ∈ pairs, pair.Fails entries outcome) :
    ∃ visits ret w', zcborMapDecodeVisits lib fuel entries w = (visits, some ret, w') ∧
      LookedUp d entries outcome pairs visits ret := by
  obtain ⟨done, last, after, rfl, ⟨i, hplace, hne⟩, hdone⟩ := exists_first hfails
  obtain ⟨p, framing, rest, hmap, hreturns⟩ := h.map
  obtain ⟨entry, hentry, hkey⟩ := getElem?_of_place hplace
  have htakes := takesAll_of_returns
    (fun i entry hentry pair hmem => hreturns i entry hentry pair (List.mem_append_left _ hmem)) hdone
  have hlast := hreturns i entry hentry last (by simp) hkey.symm
  obtain ⟨visits, w', hdecode⟩ := hlib.mapDecode_fail hmap h.matching h.fuel htakes trivial hplace
    hentry (fun w q rest hat halike hnext hpayload _ =>
      (hlast w q rest hat halike hnext hpayload).imp fun _ h => h.1) hne
  have hlastMem : last ∈ done ++ last :: after := by simp
  refine ⟨visits, _, w', hdecode, ?_, fun hzero => absurd hzero hne, ?_,
    fun _ => ⟨last, hlastMem, i, hplace, rfl, hne⟩,
    fun hnone => absurd ⟨i, hplace, hne⟩ (hnone last hlastMem)⟩
  · refine iff_of_false hne fun hall => ?_
    obtain ⟨pair, hpair, hpairKey, hzero⟩ := hall i entry hentry
    obtain rfl := List.inj_on_of_nodup_map h.matching.pairKeys hpair hlastMem
      (hpairKey.trans hkey)
    exact hne hzero
  · intro henoent
    exact iff_of_false (henoent last hlastMem i hplace) fun hall =>
      hall entry (List.mem_of_getElem? hentry) last hlastMem hkey.symm

/-- The lookup of a map in which no decoder fails, but some key is missing. -/
theorem lookedUp_of_misses (hlib : Conforms lib d)
    (h : Looking d type entries outcome pairs fuel w.zsd)
    (hnone : ∀ pair ∈ pairs, ¬ pair.Fails entries outcome)
    (hmissing : hits entries pairs < entries.length) :
    ∃ visits ret w', zcborMapDecodeVisits lib fuel entries w = (visits, some ret, w') ∧
      LookedUp d entries outcome pairs visits ret := by
  obtain ⟨p, framing, rest, hmap, hreturns⟩ := h.map
  obtain ⟨visits, w', hdecode⟩ := hlib.mapDecode_missing hmap h.matching h.fuel hmissing
    (takesAll_of_returns hreturns hnone) trivial
  have hne : (if hits entries pairs = 0 then -Errno.enoent else -Errno.ebadmsg) ≠ 0 := by
    split <;> decide
  refine ⟨visits, _, w', hdecode, ?_, fun hzero => absurd hzero hne, ?_,
    fun ⟨pair, hpair, hfails⟩ => absurd hfails (hnone pair hpair), fun _ _ => rfl⟩
  · refine iff_of_false hne fun hall => ?_
    refine hmissing.ne ((hits_eq_length_iff h.matching.entryKeys h.matching.pairKeys).mpr
      fun entry hentry => ?_)
    obtain ⟨i, hi⟩ := List.getElem?_of_mem hentry
    obtain ⟨pair, hpair, hkey, -⟩ := hall i entry hi
    exact ⟨pair, hpair, hkey⟩
  · intro _
    rw [← hits_eq_zero_iff]
    split
    · next hzero => exact iff_of_true rfl hzero
    · next hzero => exact iff_of_false (by decide) hzero

/-- The lookup of a map in which every key is found and no decoder fails. -/
theorem lookedUp_of_found (hlib : Conforms lib d) (h : Looking d type entries outcome pairs fuel w.zsd)
    (hne : entries ≠ []) (hnone : ∀ pair ∈ pairs, ¬ pair.Fails entries outcome)
    (hfound : hits entries pairs = entries.length) :
    ∃ visits ret w', zcborMapDecodeVisits lib fuel entries w = (visits, some ret, w') ∧
      LookedUp d entries outcome pairs visits ret := by
  obtain ⟨p, framing, rest, hmap, hreturns⟩ := h.map
  have hkeys := (hits_eq_length_iff h.matching.entryKeys h.matching.pairKeys).mp hfound
  obtain ⟨visits, w', done, last, after, j, hdecode, rfl, -, hafter, -, -, hvisits⟩ :=
    hlib.mapDecode_complete hmap h.matching h.fuel hne hkeys
      (takesAll_of_returns hreturns hnone) trivial
  refine ⟨visits, 0, w', hdecode, ?_, ?_, ?_,
    fun ⟨pair, hpair, hfails⟩ => absurd hfails (hnone pair hpair),
    fun _ hmissing => absurd hfound hmissing.ne⟩
  · refine iff_of_true rfl fun i entry hentry => ?_
    obtain ⟨pair, hpair, hkey⟩ := hkeys entry (List.mem_of_getElem? hentry)
    refine ⟨pair, hpair, hkey, ?_⟩
    by_contra hne
    exact hnone pair hpair
      ⟨i, (place_eq_some_iff h.matching.entryKeys hentry).mpr hkey.symm, hne⟩
  · intro _ i entry hentry pair hpair hkey
    -- no pair after the last key that is looked for has selected an entry
    have hfilter : (done ++ [last]).filter
        (fun pair => decide (place entries pair.key = some i)) = [pair] := by
      have hall := filter_key_eq h.matching.pairKeys hpair
      have hnil : after.filter (fun other => decide (other.key = pair.key)) = [] := by
        rw [List.filter_eq_nil_iff]
        intro other hother hsame
        rw [hits_eq_zero_iff] at hafter
        exact hafter entry (List.mem_of_getElem? hentry) other hother
          ((of_decide_eq_true hsame).trans hkey)
      rw [List.append_cons, List.filter_append, hnil, List.append_nil] at hall
      rw [← hall]
      refine List.filter_congr fun other _ => ?_
      rw [decide_eq_decide, place_eq_some_iff h.matching.entryKeys hentry, hkey]
      exact eq_comm
    have hselected := forall₂_selected i hvisits
    rw [hfilter] at hselected
    cases hfiltered : visits.filter fun visit => decide (visit.selected = some i) with
    | nil =>
      rw [hfiltered] at hselected
      cases hselected
    | cons visit others =>
      rw [hfiltered] at hselected
      obtain ⟨hof, hothers⟩ := List.forall₂_cons.mp hselected
      cases hothers
      exact ⟨visit, rfl, hof⟩
  · intro _
    refine iff_of_false (by decide) fun hall => ?_
    exact hne (List.length_eq_zero_iff.mp (hfound.symm.trans (hits_eq_zero_iff.mpr hall)))

theorem lookedUp (hlib : Conforms lib d) (h : Looking d type entries outcome pairs fuel w.zsd)
    (hne : entries ≠ []) :
    ∃ visits ret w', zcborMapDecodeVisits lib fuel entries w = (visits, some ret, w') ∧
      LookedUp d entries outcome pairs visits ret := by
  by_cases hfails : ∃ pair ∈ pairs, pair.Fails entries outcome
  · exact lookedUp_of_fails hlib h hfails
  · have hnone : ∀ pair ∈ pairs, ¬ pair.Fails entries outcome :=
      fun pair hpair hfail => hfails ⟨pair, hpair, hfail⟩
    rcases (hits_le h.matching.entryKeys h.matching.pairKeys).lt_or_eq with hmissing | hfound
    · exact lookedUp_of_misses hlib h hnone hmissing
    · exact lookedUp_of_found hlib h hne hnone hfound

end Lookup

/-! ## Other maps -/

/-- Two maps have the same values under the keys of a table. -/
def SameUnder (entries : List (ZcborMapEntry S σ)) (pairs pairs' : List Pair) : Prop :=
  ∀ entry ∈ entries, ∀ value, (∃ pair ∈ pairs, pair.key = entry.key ∧ pair.value = value) ↔
    ∃ pair ∈ pairs', pair.key = entry.key ∧ pair.value = value

section Others

variable {lib : ZcborDecode S} {d : Decoding S} {entries : List (ZcborMapEntry S σ)}
  {outcome : ℕ → List UInt8 → ℤ} {pairs pairs' : List Pair} {w : Cursor S σ}
  {type : ZcborMapKeyType} {fuel : ℕ} {visits visits' : List (Visit S)} {ret ret' : ℤ}

theorem SameUnder.symm (h : SameUnder entries pairs pairs') : SameUnder entries pairs' pairs :=
  fun entry hentry value => (h entry hentry value).symm

/-- A pair with a key of the table has one with its key and its value in the other map. -/
theorem SameUnder.exists_pair (h : SameUnder entries pairs pairs') {pair : Pair}
    (hpair : pair ∈ pairs) {i : ℕ} (hplace : place entries pair.key = some i) :
    ∃ pair' ∈ pairs', place entries pair'.key = some i ∧ pair'.value = pair.value := by
  obtain ⟨entry, hentry, hkey⟩ := getElem?_of_place hplace
  obtain ⟨pair', hpair', hkey', hvalue⟩ :=
    (h entry (List.mem_of_getElem? hentry) pair.value).mp ⟨pair, hpair, hkey.symm, rfl⟩
  exact ⟨pair', hpair', by rw [hkey', hkey, hplace], hvalue⟩

theorem SameUnder.found (h : SameUnder entries pairs pairs')
    (hall : ∀ i entry, entries[i]? = some entry →
      ∃ pair ∈ pairs, pair.key = entry.key ∧ outcome i pair.value = 0) :
    ∀ i entry, entries[i]? = some entry →
      ∃ pair ∈ pairs', pair.key = entry.key ∧ outcome i pair.value = 0 := by
  intro i entry hentry
  obtain ⟨pair, hpair, hkey, hzero⟩ := hall i entry hentry
  obtain ⟨pair', hpair', hkey', hvalue⟩ :=
    (h entry (List.mem_of_getElem? hentry) pair.value).mp ⟨pair, hpair, hkey, rfl⟩
  exact ⟨pair', hpair', hkey', hvalue ▸ hzero⟩

theorem SameUnder.fails (h : SameUnder entries pairs pairs')
    (hfails : ∃ pair ∈ pairs, pair.Fails entries outcome) :
    ∃ pair ∈ pairs', pair.Fails entries outcome := by
  obtain ⟨pair, hpair, i, hplace, hne⟩ := hfails
  obtain ⟨pair', hpair', hplace', hvalue⟩ := h.exists_pair hpair hplace
  exact ⟨pair', hpair', i, hplace', hvalue ▸ hne⟩

theorem SameUnder.absent (h : SameUnder entries pairs pairs')
    (hall : ∀ entry ∈ entries, ∀ pair ∈ pairs, pair.key ≠ entry.key) :
    ∀ entry ∈ entries, ∀ pair ∈ pairs', pair.key ≠ entry.key := by
  intro entry hentry pair' hpair' hkey'
  obtain ⟨pair, hpair, hkey, -⟩ := (h entry hentry pair'.value).mpr ⟨pair', hpair', hkey', rfl⟩
  exact hall entry hentry pair hpair hkey

theorem SameUnder.neverEnoent (h : SameUnder entries pairs pairs')
    (hnever : NeverEnoent entries outcome pairs) : NeverEnoent entries outcome pairs' := by
  intro pair' hpair' i hplace'
  obtain ⟨pair, hpair, hplace, hvalue⟩ := h.symm.exists_pair hpair' hplace'
  rw [← hvalue]
  exact hnever pair hpair i hplace

/-- What the decoders return on the values of the map is nothing but zero and one error. -/
def OneError (entries : List (ZcborMapEntry S σ)) (outcome : ℕ → List UInt8 → ℤ)
    (pairs : List Pair) : Prop :=
  ∃ err, ∀ pair ∈ pairs, ∀ i, place entries pair.key = some i →
    outcome i pair.value = 0 ∨ outcome i pair.value = err

/-- With one error there is nothing about the order that could matter. -/
theorem LookedUp.ret_eq (hentries : (entries.map ZcborMapEntry.key).Nodup)
    (hpairs : (pairs.map Pair.key).Nodup) (hpairs' : (pairs'.map Pair.key).Nodup)
    (h : LookedUp d entries outcome pairs visits ret)
    (h' : LookedUp d entries outcome pairs' visits' ret')
    (hsame : SameUnder entries pairs pairs') (herror : OneError entries outcome pairs) :
    ret = ret' := by
  by_cases hfails : ∃ pair ∈ pairs, pair.Fails entries outcome
  · -- both errors are the one there is
    obtain ⟨err, honly⟩ := herror
    obtain ⟨pair, hpair, i, hplace, hret, hne⟩ := h.fails hfails
    obtain ⟨pair', hpair', j, hplace', hret', hne'⟩ := h'.fails (hsame.fails hfails)
    obtain ⟨other, hother, hplaceOther, hvalue⟩ := hsame.symm.exists_pair hpair' hplace'
    rw [← hvalue] at hret'
    have hfirst := (honly pair hpair i hplace).resolve_left (by rw [hret]; exact hne)
    have hsecond := (honly other hother j hplaceOther).resolve_left (by rw [hret']; exact hne')
    rw [← hret, ← hret', hfirst, hsecond]
  · have hnone : ∀ pair ∈ pairs, ¬ pair.Fails entries outcome :=
      fun pair hpair hfail => hfails ⟨pair, hpair, hfail⟩
    have hnone' : ∀ pair ∈ pairs', ¬ pair.Fails entries outcome :=
      fun pair hpair hfail => hfails (hsame.symm.fails ⟨pair, hpair, hfail⟩)
    by_cases hzero : ret = 0
    · rw [hzero, h'.zero_iff.mpr (hsame.found (h.zero_iff.mp hzero))]
    · have hzero' : ret' ≠ 0 := fun hzero' =>
        hzero (h.zero_iff.mpr (hsame.symm.found (h'.zero_iff.mp hzero')))
      -- where no decoder fails, a result that is not zero says that a key is missing
      have hmissing : ∀ {pairs ret} {visits : List (Visit S)}, (pairs.map Pair.key).Nodup →
          LookedUp d entries outcome pairs visits ret →
          (∀ pair ∈ pairs, ¬ pair.Fails entries outcome) → ret ≠ 0 →
          hits entries pairs < entries.length := by
        intro pairs ret visits hpairs h hnone hne
        refine lt_of_le_of_ne (hits_le hentries hpairs) fun hfound => hne (h.zero_iff.mpr ?_)
        intro i entry hentry
        obtain ⟨pair, hpair, hkey⟩ :=
          (hits_eq_length_iff hentries hpairs).mp hfound entry (List.mem_of_getElem? hentry)
        refine ⟨pair, hpair, hkey, ?_⟩
        by_contra hne
        exact hnone pair hpair ⟨i, (place_eq_some_iff hentries hentry).mpr hkey.symm, hne⟩
      rw [h.misses hnone (hmissing hpairs h hnone hzero),
        h'.misses hnone' (hmissing hpairs' h' hnone' hzero')]
      simp only [hits_eq_zero_iff]
      exact if_congr ⟨hsame.absent, hsame.symm.absent⟩ rfl rfl

/-- **Lookup.** Whatever the order of a map and whatever else it holds, `zcbor_map_decode` returns
zero exactly if every key of its table is in the map and the decoder of its entry succeeds, and
then each decoder has been run once, on the value under its key; it returns `-ENOENT` exactly if
no key is in the map. A map with the same values under the keys of the table has the same
outcome. -/
theorem zcborMapDecode_lookedUp (hlib : Conforms lib d) (hne : entries ≠ [])
    (h : Looking d type entries outcome pairs fuel w.zsd) :
    ∃ visits ret w', zcborMapDecodeVisits lib fuel entries w = (visits, some ret, w') ∧
      LookedUp d entries outcome pairs visits ret ∧
      ∀ pairs' fuel' w₁, Looking d type entries outcome pairs' fuel' w₁.zsd →
        SameUnder entries pairs pairs' →
        ∃ visits' ret' w₁', zcborMapDecodeVisits lib fuel' entries w₁ = (visits', some ret', w₁') ∧
          LookedUp d entries outcome pairs' visits' ret' ∧ (ret = 0 ↔ ret' = 0) ∧
          (NeverEnoent entries outcome pairs → (ret = -Errno.enoent ↔ ret' = -Errno.enoent)) ∧
          (OneError entries outcome pairs → ret = ret') := by
  obtain ⟨visits, ret, w', hdecode, hlooked⟩ := lookedUp hlib h hne
  refine ⟨visits, ret, w', hdecode, hlooked, fun pairs' fuel' w₁ h' hsame => ?_⟩
  obtain ⟨visits', ret', w₁', hdecode', hlooked'⟩ := lookedUp hlib h' hne
  refine ⟨visits', ret', w₁', hdecode', hlooked', ?_, fun hnever => ?_,
    hlooked.ret_eq h.matching.entryKeys h.matching.pairKeys h'.matching.pairKeys hlooked' hsame⟩
  · rw [hlooked.zero_iff, hlooked'.zero_iff]
    exact ⟨hsame.found, hsame.symm.found⟩
  · rw [hlooked.enoent_iff hnever, hlooked'.enoent_iff (hsame.neverEnoent hnever)]
    exact ⟨hsame.absent, hsame.symm.absent⟩

end Others

/-! ## A table of two integers -/

/-- The decoder of an integer takes it. -/
theorem Conforms.int64_takes {lib : ZcborDecode S} {d : Decoding S} (hlib : Conforms lib d)
    {assign : ℤ → σ → σ} {w : Cursor S σ} {q : Position} {item rest : List UInt8} {value : ℤ}
    (hat : d.At w.zsd q) (hnext : q.HasNext) (hpayload : q.payload = item ++ rest)
    (hitem : IntegerItem value item) (hrange : -2 ^ 63 ≤ value ∧ value < 2 ^ 63) :
    ∃ w', zcborMapInt64Decode lib assign w = (some 0, w') ∧ d.At w'.zsd (q.next rest) ∧
      w'.out = assign value w.out := by
  obtain ⟨raw, zsd', hdecode, rfl, hat'⟩ := hlib.int64.takes hat hnext hpayload ⟨hitem, hrange⟩
  exact ⟨{ w with zsd := zsd', out := assign raw w.out }, by rw [zcborMapInt64Decode, hdecode],
    hat', rfl⟩

/-- The decoder of a text takes it. -/
theorem Conforms.tstr_takes {lib : ZcborDecode S} {d : Decoding S} (hlib : Conforms lib d)
    (assign : ZcborString → σ → σ) {w : Cursor S σ} {q : Position} {text item rest : List UInt8}
    (hat : d.At w.zsd q) (hnext : q.HasNext) (hpayload : q.payload = item ++ rest)
    (hitem : TextItem d.profile text item) :
    ∃ str w', zcborMapTstrDecode lib assign w = (some 0, w') ∧ d.At w'.zsd (q.next rest) ∧
      q.text str = text ∧ w'.out = assign str w.out := by
  obtain ⟨str, zsd', hdecode, htext, hat'⟩ := hlib.tstr.takes hat hnext hpayload hitem
  exact ⟨str, { w with zsd := zsd', out := assign str w.out }, by rw [zcborMapTstrDecode, hdecode],
    hat', htext, rfl⟩

/-- The table for the keys 1 and 2. -/
def integers : List (ZcborMapEntry Reference.State (ℤ × ℤ)) :=
  [{ key := .u32 1, decode := zcborMapInt64Decode Reference.library fun n out => (n, out.2) },
    { key := .u32 2, decode := zcborMapInt64Decode Reference.library fun n out => (out.1, n) }]

/-- `{1: 5, 7: [1], 2: -1}`. -/
def sampleMap : List UInt8 := [0xa3, 0x01, 0x05, 0x07, 0x81, 0x01, 0x02, 0x20]

def samplePairs : List Pair :=
  [⟨.u32 1, [0x01], [0x05]⟩, ⟨.u32 7, [0x07], [0x81, 0x01]⟩, ⟨.u32 2, [0x02], [0x20]⟩]

/-- A state before the map. -/
def sampleState : Reference.State := Reference.newDecodeState sampleMap 1 1

theorem looking_sample :
    Looking Reference.decoding .u32 integers (fun _ _ => 0) samplePairs 4 sampleState where
  matching := by
    have hone : WellFormed Reference.profile [0x01] :=
      .integer (.inl rfl) (@Head.inside 0 0x01 rfl (by decide))
    have hlist : WellFormed Reference.profile ([0x81] ++ ([[0x01]].flatten ++ [])) :=
      @WellFormed.list _ .definite [0x81] [[0x01]]
        ⟨@Head.inside 4 0x81 rfl (by decide), by decide⟩ (by simpa using hone)
    refine ⟨by simp [TypedTable, integers, Key.type], ?_, by decide, by decide⟩
    simp only [samplePairs, List.forall_mem_cons, Key.type, and_true]
    exact ⟨⟨⟨@Head.inside 0 0x01 rfl (by decide), by decide⟩,
        .integer (.inl rfl) (@Head.inside 0 0x05 rfl (by decide))⟩,
      ⟨⟨@Head.inside 0 0x07 rfl (by decide), by decide⟩, hlist⟩,
      ⟨⟨@Head.inside 0 0x02 rfl (by decide), by decide⟩,
        .integer (.inr rfl) (@Head.inside 1 0x20 rfl (by decide))⟩, by simp⟩
  fuel := by decide
  map := by
    refine ⟨_, .definite, [],
      ⟨Reference.stands_newDecodeState (by decide), ?_, ?_, sampleMap, ?_, rfl⟩, ?_⟩
    · simp [Position.HasNext]
    · simp
    · exact ⟨[0xa3], ⟨@Head.inside 5 0xa3 rfl (by decide), by decide⟩, rfl⟩
    · intro i entry hentry pair hpair hkey w q rest hat halike hnext hpayload
      have hentry : entry ∈ integers := List.mem_of_getElem? hentry
      obtain ⟨assign, hdecode⟩ :
          ∃ assign, entry.decode = zcborMapInt64Decode Reference.library assign := by
        simp only [integers, List.mem_cons, List.not_mem_nil, or_false] at hentry
        rcases hentry with rfl | rfl
        · exact ⟨fun n out => (n, out.2), rfl⟩
        · exact ⟨fun n out => (out.1, n), rfl⟩
      obtain ⟨value, hitem, hrange⟩ :
          ∃ value, IntegerItem value pair.value ∧ -2 ^ 63 ≤ value ∧ value < 2 ^ 63 := by
        simp only [samplePairs, List.mem_cons, List.not_mem_nil, or_false] at hpair
        rcases hpair with rfl | rfl | rfl
        · exact ⟨5, ⟨5, .inl ⟨@Head.inside 0 0x05 rfl (by decide), rfl⟩⟩, by decide, by decide⟩
        · -- the key 7 is not in the table
          simp only [integers, List.mem_cons, List.not_mem_nil, or_false] at hentry
          rcases hentry with rfl | rfl <;> exact absurd hkey (by decide)
        · exact ⟨-1, ⟨0, .inr ⟨@Head.inside 1 0x20 rfl (by decide), rfl⟩⟩, by decide, by decide⟩
      obtain ⟨w', hreturn, hat', -⟩ :=
        Reference.conforms.int64_takes hat hnext hpayload hitem hrange
      exact ⟨w', by rw [hdecode]; exact hreturn, fun _ => hat'⟩

theorem zcborMapDecode_lookedUp_sample :
    ∃ visits ret w', zcborMapDecodeVisits Reference.library 4 integers
        { zsd := sampleState, out := (0, 0) } = (visits, some ret, w') ∧
      LookedUp Reference.decoding integers (fun _ _ => 0) samplePairs visits ret := by
  have hne : integers ≠ [] := List.cons_ne_nil _ _
  obtain ⟨visits, ret, w', hdecode, hlooked, -⟩ :=
    zcborMapDecode_lookedUp (w := ⟨sampleState, (0, 0), []⟩) Reference.conforms hne looking_sample
  exact ⟨visits, ret, w', hdecode, hlooked⟩

end Golioth.Zcbor
