/-
# Walks through well-formed maps

What the functions of `zcbor_utils.c` do where the payload goes on with what they
are for: the end of a container is seen where it is, a key is decoded, the value of
a key that a table does not have is skipped, and the loop of `zcbor_map_decode`
takes the pairs of a map one after the other.
-/
import Golioth.Zcbor.Contract
import Golioth.Zcbor.Keys

namespace Golioth.Zcbor

open CS CS.Cbor

variable {S σ : Type}

/-! ## Pairs -/

/-- The bytes of a key in a map. -/
def Key.Labels (profile : Profile) (label : List UInt8) : Key → Prop
  | .u32 value => NaturalItem profile value.toNat label
  | .tstr text => TextItem profile text label

/-- A key of a map with its value. -/
structure Pair where
  key : Key
  label : List UInt8
  value : List UInt8

def Pair.bytes (pair : Pair) : List UInt8 := pair.label ++ pair.value

/-- The key is one and the value is an item. -/
structure Pair.WellFormed (profile : Profile) (pair : Pair) : Prop where
  labels : pair.key.Labels profile pair.label
  value : Cbor.WellFormed profile pair.value

def pairBytes (pairs : List Pair) : List UInt8 := pairs.flatMap Pair.bytes

@[simp] theorem pairBytes_nil : pairBytes [] = [] := rfl

@[simp] theorem pairBytes_cons (pair : Pair) (pairs : List Pair) :
    pairBytes (pair :: pairs) = pair.label ++ (pair.value ++ pairBytes pairs) := by
  simp [pairBytes, Pair.bytes]

@[simp] theorem pairBytes_append (pairs pairs' : List Pair) :
    pairBytes (pairs ++ pairs') = pairBytes pairs ++ pairBytes pairs' := List.flatMap_append

/-- The item is a map of the pairs. -/
def IsMap (profile : Profile) (framing : Framing) (pairs : List Pair) (item : List UInt8) : Prop :=
  ∃ head, framing.Opens profile 5 pairs.length head ∧
    item = head ++ (pairBytes pairs ++ framing.close)

theorem IsMap.length_bytes_le {profile : Profile} {framing : Framing} {pairs : List Pair}
    {item : List UInt8} (h : IsMap profile framing pairs item) {pair : Pair} (hpair : pair ∈ pairs) :
    pair.label.length + pair.value.length ≤ item.length := by
  obtain ⟨head, -, rfl⟩ := h
  have hle : pair.bytes.length ≤ (pairBytes pairs).length :=
    (List.sublist_flatten_of_mem (List.mem_map_of_mem hpair)).length_le
  rw [Pair.bytes, List.length_append] at hle
  simp only [List.length_append]
  omega

/-- A map is longer than the texts that are keys of it. -/
theorem IsMap.length_text_le {profile : Profile} {framing : Framing} {pairs : List Pair}
    {item text : List UInt8} (h : IsMap profile framing pairs item) {pair : Pair}
    (hpair : pair ∈ pairs) (hlabels : pair.key.Labels profile pair.label)
    (hkey : pair.key = .tstr text) : text.length ≤ item.length := by
  have hle := h.length_bytes_le hpair
  rw [hkey] at hlabels
  obtain ⟨head, -, heq⟩ := hlabels
  rw [heq, List.length_append] at hle
  omega

/-- The item is a list of the items. -/
def IsList (profile : Profile) (framing : Framing) (items : List (List UInt8))
    (item : List UInt8) : Prop :=
  ∃ head, framing.Opens profile 4 items.length head ∧
    item = head ++ (items.flatten ++ framing.close)

theorem Key.Labels.initial {profile : Profile} {key : Key} {label : List UInt8}
    (h : key.Labels profile label) :
    ∃ byte following, label = byte :: following ∧
      majorType byte = (match key.type with | .u32 => MajorType.pint | .tstr => MajorType.tstr) := by
  cases key with
  | u32 value =>
    have h : NaturalItem profile value.toNat label := h
    obtain ⟨byte, following, heq, hmajor⟩ := h.initial
    exact ⟨byte, following, heq, by simp [majorType, hmajor, Key.type]⟩
  | tstr text =>
    have h : TextItem profile text label := h
    obtain ⟨byte, following, heq, hmajor⟩ := h.initial
    exact ⟨byte, following, heq, by simp [majorType, hmajor, Key.type]⟩

/-- No key begins like the end of a map. -/
theorem Key.Labels.ne_breakCode {profile : Profile} {key : Key} {byte : UInt8}
    {following : List UInt8} (h : key.Labels profile (byte :: following)) : byte ≠ breakCode := by
  obtain ⟨first, rest, heq, hmajor⟩ := h.initial
  obtain ⟨rfl, -⟩ := List.cons_eq_cons.mp heq
  rintro rfl
  have hsimple : majorType breakCode = .simple := by decide
  rw [hsimple] at hmajor
  cases htype : key.type <;> simp [htype] at hmajor

/-! ## Positions of a walk -/

namespace Position

/-- A number of elements has been taken. -/
def past (p : Position) (count : ℕ) (rest : List UInt8) : Position :=
  { p with payload := rest, left := p.left.map (· - count) }

/-- There are at least so many elements left. -/
def Affords (p : Position) (count : ℕ) : Prop := ∀ n, p.left = some n → count ≤ n

variable {p q : Position} {m n : ℕ} {rest rest' : List UInt8}

theorem past_past : (p.past m rest).past n rest' = p.past (m + n) rest' := by
  simp only [past, Option.map_map]
  congr 2
  funext count
  exact Nat.sub_sub count m n

theorem next_eq_past : p.next rest = p.past 1 rest := rfl

@[simp] theorem payload_past : (p.past n rest).payload = rest := rfl

theorem past_zero (h : p.payload = rest) : p.past 0 rest = p := by
  subst h
  cases p with
  | mk memory payload left outer room => cases left <;> rfl

theorem Affords.hasNext (h : p.Affords n) (hn : 0 < n) : p.HasNext := by
  intro hleft
  have := h 0 hleft
  omega

theorem Affords.past (h : p.Affords (m + n)) : (p.past m rest).Affords n := by
  intro count hleft
  obtain ⟨before, hbefore, rfl⟩ := Option.map_eq_some_iff.mp hleft
  have := h before hbefore
  omega

theorem Affords.mono (h : p.Affords n) (hle : m ≤ n) : p.Affords m :=
  fun count hleft => hle.trans (h count hleft)

/-- The positions are in the same container. -/
structure Alike (p q : Position) : Prop where
  memory : q.memory = p.memory
  outer : q.outer = p.outer
  room : q.room = p.room

theorem Alike.refl (p : Position) : p.Alike p := ⟨rfl, rfl, rfl⟩

theorem Alike.past (h : p.Alike q) : p.Alike (q.past n rest) := ⟨h.memory, h.outer, h.room⟩

/-- Inside the container that is next. -/
def inside (p : Position) : Position := p.enter p.payload none

theorem text_congr (h : q.memory = p.memory) (str : ZcborString) : q.text str = p.text str := by
  simp only [text, bytes, h]

end Position

/-- The state stands at a map of the pairs, which it can enter. -/
structure AtMap (d : Decoding S) (framing : Framing) (pairs : List Pair) (zsd : S) (p : Position)
    (rest : List UInt8) : Prop where
  stands : d.At zsd p
  hasNext : p.HasNext
  room : 0 < p.room
  payload : ∃ item, IsMap d.profile framing pairs item ∧ p.payload = item ++ rest

/-! ## Single steps -/

/-- The state and the variables are the same, whatever has been recorded. -/
structure Cursor.Same (w w' : Cursor S σ) : Prop where
  zsd : w'.zsd = w.zsd
  out : w'.out = w.out

@[simp] theorem Cursor.zsd_record (w : Cursor S σ) (event : Event S) :
    (w.record event).zsd = w.zsd := rfl

@[simp] theorem Cursor.out_record (w : Cursor S σ) (event : Event S) :
    (w.record event).out = w.out := rfl

section Steps

variable {lib : ZcborDecode S} {d : Decoding S} {w : Cursor S σ} {p : Position}
  {framing : Framing} {rest : List UInt8}

theorem Conforms.bytes_eq (hlib : Conforms lib d) {zsd : S} (hat : d.At zsd p)
    (address : UInt32) (len : ℕ) : lib.bytes zsd address len = p.bytes address len := by
  rw [ZcborDecode.bytes, Position.bytes, hlib.memory hat]

theorem Conforms.text_eq (hlib : Conforms lib d) {zsd : S} (hat : d.At zsd p)
    (str : ZcborString) : lib.text zsd str = p.text str := hlib.bytes_eq hat str.value str.len

/-- A state for one item stands at the map that the item is. -/
theorem Conforms.atMap_newDecodeState (hlib : Conforms lib d) {pairs : List Pair}
    {data : List UInt8} (hmap : IsMap d.profile framing pairs data) (hlen : data.length < 2 ^ 16)
    (backups : ℕ) :
    ∃ memory, AtMap d framing pairs (lib.newDecodeState data 1 (backups + 1))
      ⟨memory, data, some 1, [], backups + 1⟩ [] := by
  have hsize : data.length + 16 < sizeModulus := by
    have hmodulus : 2 ^ 16 + 16 < sizeModulus := by decide
    omega
  obtain ⟨memory, hat⟩ := @Conforms.newDecodeState _ _ _ hlib data 1 (backups + 1) hsize
  refine ⟨memory, hat, ?_, Nat.succ_pos backups, data, hmap, (List.append_nil _).symm⟩
  simp [Position.HasNext]

/-- The end of a container is seen. -/
theorem Conforms.atEnd (hlib : Conforms lib d) (hat : d.At w.zsd p)
    (hleft : p.left = leftOf 0 framing) (hpayload : p.payload = framing.close ++ rest) :
    ∃ w', zcborListOrMapEnd lib w = (true, w') ∧ w.Same w' := by
  rw [zcborListOrMapEnd, hlib.indefinite hat]
  cases framing with
  | definite =>
    rw [hleft]
    exact ⟨w, by simp [leftOf, hlib.elemCount hat hleft], rfl, rfl⟩
  | indefinite =>
    rw [hleft]
    exact ⟨w.record (.read w.zsd), by
      simp [leftOf, readHeader, hlib.payloadByte hat hpayload, breakByte, breakCode], rfl, rfl⟩

/-- An element is seen. -/
theorem Conforms.notAtEnd (hlib : Conforms lib d) (hat : d.At w.zsd p) (hnext : p.HasNext)
    {byte : UInt8} (hpayload : p.payload = byte :: rest) (hbyte : byte ≠ breakCode) :
    ∃ w', zcborListOrMapEnd lib w = (false, w') ∧ w.Same w' := by
  rw [zcborListOrMapEnd, hlib.indefinite hat]
  cases hleft : p.left with
  | some n =>
    have hn : n ≠ 0 := by
      rintro rfl
      exact hnext hleft
    exact ⟨w, by simp [hlib.elemCount hat hleft, hn], rfl, rfl⟩
  | none =>
    have hbyte : byte ≠ breakByte := hbyte
    exact ⟨w.record (.read w.zsd), by
      simp [readHeader, hlib.payloadByte hat hpayload, hbyte], rfl, rfl⟩

/-- A key is decoded. -/
theorem Conforms.keyDecode (hlib : Conforms lib d) (hat : d.At w.zsd p) (hnext : p.HasNext)
    {key : Key} {label : List UInt8} (hlabel : key.Labels d.profile label)
    (hpayload : p.payload = label ++ rest) (before : ZcborMapKey) :
    ∃ decoded w', zcborMapKeyDecode lib w before = (0, decoded, w') ∧
      decoded.content lib w'.zsd = key ∧ d.At w'.zsd (p.next rest) ∧ w'.out = w.out := by
  obtain ⟨byte, following, hbytes, hmajor⟩ := hlabel.initial
  have hfirst : p.payload = byte :: (following ++ rest) := by
    rw [hpayload, hbytes]
    rfl
  have hbyte : lib.payloadByte w.zsd = byte := hlib.payloadByte hat hfirst
  unfold zcborMapKeyDecode
  dsimp only [readHeader]
  rw [hbyte, hmajor]
  cases key with
  | tstr text =>
    obtain ⟨str, zsd', hdecode, htext, hat'⟩ := hlib.tstr.takes hat hnext hpayload hlabel
    have hdecode : lib.tstrDecode (w.record (.read w.zsd)).zsd = (some str, zsd') := hdecode
    refine ⟨{ type := .tstr, word := str.value, len := str.len },
      { w.record (.read w.zsd) with zsd := zsd' }, by simp only [Key.type, hdecode], ?_, hat', rfl⟩
    rw [← htext]
    exact congrArg Key.tstr (hlib.bytes_eq hat' str.value str.len)
  | u32 value =>
    have hlabel : NaturalItem d.profile value.toNat label ∧ value.toNat < 2 ^ 32 :=
      ⟨hlabel, value.toNat_lt⟩
    obtain ⟨n, zsd', hdecode, hvalue, hat'⟩ := hlib.uint32.takes hat hnext hpayload hlabel
    have hdecode : lib.uint32Decode (w.record (.read w.zsd)).zsd = (some n, zsd') := hdecode
    obtain rfl := UInt32.toNat_inj.mp hvalue
    exact ⟨{ before with type := .u32, word := n }, { w.record (.read w.zsd) with zsd := zsd' },
      by simp only [Key.type, hdecode], rfl, hat', rfl⟩

end Steps

/-! ## Lookups -/

/-- The place in a table of the entry for a key. -/
def place (entries : List (ZcborMapEntry S σ)) (key : Key) : Option ℕ :=
  entries.findIdx? fun entry => decide (entry.key = key)

/-- The keys of a table are all of a type. -/
def TypedTable (entries : List (ZcborMapEntry S σ)) (type : ZcborMapKeyType) : Prop :=
  ∀ entry ∈ entries, entry.key.type = type

/-- The lookup is the one of a pair of the map: it selects the entry for its key, and the state
stands at its value. -/
structure Visit.Of (d : Decoding S) (entries : List (ZcborMapEntry S σ)) (pair : Pair)
    (visit : Visit S) : Prop where
  selected : visit.selected = place entries pair.key
  stands : ∃ q rest, d.At visit.zsd q ∧ q.payload = pair.value ++ rest

/-- How an iteration ends in which the decoder of an entry has run. -/
def Iteration.ofEntry (zsd : S) (key : ZcborMapKey) (i : ℕ) : Walked S σ → Iteration S σ
  | (some 0, w) => .passed ⟨zsd, key, some i, some 0⟩ w
  | (some err, w) => .returned err [⟨zsd, key, some i, some err⟩] w
  | (none, w) => .running ⟨zsd, key, some i, none⟩ w

theorem Iteration.ofEntry_of_ne {zsd : S} {key : ZcborMapKey} {i : ℕ} {err : ℤ} {w : Cursor S σ}
    (hne : err ≠ 0) : Iteration.ofEntry zsd key i (some err, w) =
      .returned err [⟨zsd, key, some i, some err⟩] w := by
  rw [Iteration.ofEntry]
  exact hne

section Lookups

variable {lib : ZcborDecode S} {d : Decoding S} {entries : List (ZcborMapEntry S σ)}
  {w : Cursor S σ} {p : Position} {pair : Pair} {rest : List UInt8} {type : ZcborMapKeyType}

theorem mapEntryGet_eq (htable : TypedTable entries type) {zsd : S} {key : ZcborMapKey}
    (htype : key.type = type) :
    mapEntryGet lib zsd entries key = place entries (key.content lib zsd) := by
  induction entries with
  | nil => rfl
  | cons entry entries ih =>
    obtain ⟨hentry, hentries⟩ := List.forall_mem_cons.mp htable
    have ih : entries.findIdx? _ = entries.findIdx? _ := ih hentries
    rw [mapEntryGet, place, List.findIdx?_cons, List.findIdx?_cons,
      comparesEqual_eq (hentry.trans htype.symm), ih]

/-- An iteration of the loop at a pair of the map comes to its value, with its key. -/
theorem Conforms.decodeNext_pair (hlib : Conforms lib d) (before : ZcborMapKey)
    (hat : d.At w.zsd p) (hafford : p.Affords 2)
    (hpayload : p.payload = pair.label ++ (pair.value ++ rest))
    (hlabels : pair.key.Labels d.profile pair.label) (htable : TypedTable entries type)
    (htype : pair.key.type = type) :
    ∃ key w', decodeNext lib entries before w = decodeValue lib entries key w' ∧
      mapEntryGet lib w'.zsd entries key = place entries pair.key ∧
      d.At w'.zsd (p.next (pair.value ++ rest)) ∧ w'.out = w.out := by
  obtain ⟨byte, following, hbytes, -⟩ := hlabels.initial
  have hbyte : byte ≠ breakCode := (hbytes ▸ hlabels).ne_breakCode
  have hnext : p.HasNext := hafford.hasNext (by omega)
  have hfirst : p.payload = byte :: (following ++ (pair.value ++ rest)) := by
    rw [hpayload, hbytes]
    rfl
  have hrecord : d.At (w.record (.key w.zsd)).zsd p := hat
  obtain ⟨w₁, hend, hsame⟩ := hlib.notAtEnd hrecord hnext hfirst hbyte
  have hat₁ : d.At w₁.zsd p := by
    rw [hsame.zsd]
    exact hat
  obtain ⟨key, w', hkey, hcontent, hat', hout⟩ :=
    hlib.keyDecode hat₁ hnext hlabels hpayload before
  have hkeyType : key.type = type := by
    rw [← type_content lib w'.zsd, hcontent, htype]
  refine ⟨key, w', by simp only [decodeNext, hend, hkey], ?_, hat', ?_⟩
  · rw [mapEntryGet_eq htable hkeyType, hcontent]
  · rw [hout, hsame.out]
    rfl

/-- At a break there is either the end of the map or no key. -/
theorem Conforms.decodeNext_break (hlib : Conforms lib d) (before : ZcborMapKey)
    (hat : d.At w.zsd p) (hpayload : p.payload = breakCode :: rest) :
    ∃ w', decodeNext lib entries before w = .atEnd w' ∨
      decodeNext lib entries before w = .returned (-Errno.ebadmsg) [] w' := by
  have hbyte : lib.payloadByte w.zsd = breakCode := hlib.payloadByte hat hpayload
  have hsimple : majorType breakCode = .simple := by decide
  have hbreak : breakCode = breakByte := rfl
  rw [decodeNext, zcborListOrMapEnd, Cursor.zsd_record, readHeader]
  split <;> rename_i heq
  · exact ⟨_, .inl rfl⟩
  · split at heq
    · -- the end of an indefinite length is seen
      simp [hbyte, hbreak] at heq
    · obtain ⟨-, rfl⟩ := Prod.mk.inj heq
      refine ⟨(w.record (.key w.zsd)).record (.read w.zsd), .inr ?_⟩
      rw [zcborMapKeyDecode, readHeader]
      simp [hbyte, hsimple, Errno.ebadmsg]

/-- The value of a key that the table does not have is skipped. -/
theorem Conforms.decodeNext_skip (hlib : Conforms lib d) (before : ZcborMapKey)
    (hat : d.At w.zsd p) (hafford : p.Affords 2)
    (hpayload : p.payload = pair.label ++ (pair.value ++ rest))
    (hpair : pair.WellFormed d.profile) (htable : TypedTable entries type)
    (htype : pair.key.type = type) (hplace : place entries pair.key = none) :
    ∃ visit w', decodeNext lib entries before w = .passed visit w' ∧
      visit.Of d entries pair ∧ d.At w'.zsd (p.past 2 rest) ∧ w'.out = w.out := by
  obtain ⟨key, w', hnext, hget, hat', hout⟩ :=
    hlib.decodeNext_pair before hat hafford hpayload hpair.labels htable htype
  have hvalue : (p.next (pair.value ++ rest)).HasNext :=
    (Position.Affords.past (m := 1) (n := 1) hafford).hasNext one_pos
  obtain ⟨zsd', hskip, hat''⟩ := hlib.skip hat' hvalue rfl hpair.value
  refine ⟨⟨w'.zsd, key, none, some 0⟩, { w' with zsd := zsd' }, ?_, ?_, ?_, hout⟩
  · rw [hnext, decodeValue]
    simp only [hget, hplace, Option.bind_none, hskip]
  · exact ⟨hplace.symm, _, _, hat', rfl⟩
  · rw [Position.next_eq_past, Position.next_eq_past, Position.past_past] at hat''
    exact hat''

/-- The value of a key that the table has is handed to the decoder of its entry. -/
theorem Conforms.decodeNext_hit (hlib : Conforms lib d) (before : ZcborMapKey)
    (hat : d.At w.zsd p) (hafford : p.Affords 2)
    (hpayload : p.payload = pair.label ++ (pair.value ++ rest))
    (hlabels : pair.key.Labels d.profile pair.label) (htable : TypedTable entries type)
    (htype : pair.key.type = type) {i : ℕ} {entry : ZcborMapEntry S σ}
    (hplace : place entries pair.key = some i) (hentry : entries[i]? = some entry) :
    ∃ key w', d.At w'.zsd (p.next (pair.value ++ rest)) ∧ w'.out = w.out ∧
      decodeNext lib entries before w = .ofEntry w'.zsd key i (entry.decode w') := by
  obtain ⟨key, w', hnext, hget, hat', hout⟩ :=
    hlib.decodeNext_pair before hat hafford hpayload hlabels htable htype
  refine ⟨key, w', hat', hout, ?_⟩
  rw [hnext, decodeValue]
  simp only [hget, hplace, Option.bind_some, hentry]
  rfl

end Lookups

/-! ## Runs of the loop -/

/-- Wherever it stands at a value in a container like the one of a position, a decoder takes the
value, and leaves the variables with a property if they had one before. -/
def Takes (d : Decoding S) (p : Position) (decode : Cursor S σ → Walked S σ) (value : List UInt8)
    (pre post : σ → Prop) : Prop :=
  ∀ w q rest, d.At w.zsd q → p.Alike q → q.HasNext → q.payload = value ++ rest → pre w.out →
    ∃ w', decode w = (some 0, w') ∧ d.At w'.zsd (q.next rest) ∧ post w'.out

/-- How many of the pairs have a key of the table. -/
def hits (entries : List (ZcborMapEntry S σ)) (pairs : List Pair) : ℕ :=
  pairs.countP fun pair => (place entries pair.key).isSome

section Runs

variable {lib : ZcborDecode S} {d : Decoding S} {entries : List (ZcborMapEntry S σ)}
  {w : Cursor S σ} {p q : Position} {pair : Pair} {done todo pairs : List Pair} {rest : List UInt8}
  {type : ZcborMapKeyType} {inv : List Pair → σ → Prop}

theorem hits_cons (entries : List (ZcborMapEntry S σ)) (pair : Pair) (pairs : List Pair) :
    hits entries (pair :: pairs) =
      hits entries pairs + if (place entries pair.key).isSome then 1 else 0 :=
  List.countP_cons

theorem hits_append (entries : List (ZcborMapEntry S σ)) (pairs pairs' : List Pair) :
    hits entries (pairs ++ pairs') = hits entries pairs + hits entries pairs' :=
  List.countP_append

theorem getElem?_of_place {key : Key} {i : ℕ} (h : place entries key = some i) :
    ∃ entry, entries[i]? = some entry ∧ entry.key = key := by
  obtain ⟨entry, hget, hkey, -⟩ := mem_scanned_of_findIdx? h
  exact ⟨entry, hget, of_decide_eq_true hkey⟩

theorem decodeEntries_of_passed (fuel : ℕ) {key : ZcborMapKey} {numDecoded : ℕ} {visit : Visit S}
    {w' : Cursor S σ} (hlt : numDecoded < entries.length)
    (h : decodeNext lib entries key w = .passed visit w') :
    decodeEntries lib entries (fuel + 1) key numDecoded w =
      ((decodeEntries lib entries fuel visit.key (visit.count numDecoded) w').1,
        visit :: (decodeEntries lib entries fuel visit.key (visit.count numDecoded) w').2.1,
        (decodeEntries lib entries fuel visit.key (visit.count numDecoded) w').2.2) := by
  rw [decodeEntries, if_pos hlt, h]

/-- **Run rule.** The loop takes the pairs before it, where the entries of the table that are for
one of them take its value, and not all of the entries have been found after it. -/
theorem Conforms.decodeEntries_pass (hlib : Conforms lib d) (before : ZcborMapKey)
    (numDecoded fuel : ℕ) (htable : TypedTable entries type)
    (hpairs : ∀ pair ∈ pairs, pair.WellFormed d.profile ∧ pair.key.type = type)
    (htakes : ∀ done pair after, pairs = done ++ pair :: after →
      ∀ i entry, place entries pair.key = some i → entries[i]? = some entry →
      Takes d p entry.decode pair.value (inv done) (inv (done ++ [pair])))
    (hskips : ∀ done pair after, pairs = done ++ pair :: after → place entries pair.key = none →
      ∀ out, inv done out → inv (done ++ [pair]) out)
    (hsplit : pairs = done ++ todo) (hat : d.At w.zsd q) (halike : p.Alike q)
    (hafford : q.Affords (2 * todo.length)) (hpayload : q.payload = pairBytes todo ++ rest)
    (hinv : inv done w.out) (hcount : numDecoded + hits entries todo < entries.length) :
    ∃ visits key w', decodeEntries lib entries (todo.length + fuel) before numDecoded w =
        ((decodeEntries lib entries fuel key (numDecoded + hits entries todo) w').1,
          visits ++ (decodeEntries lib entries fuel key (numDecoded + hits entries todo) w').2.1,
          (decodeEntries lib entries fuel key (numDecoded + hits entries todo) w').2.2) ∧
      d.At w'.zsd (q.past (2 * todo.length) rest) ∧ inv pairs w'.out ∧
      List.Forall₂ (Visit.Of d entries) todo visits := by
  induction todo generalizing done w q before numDecoded with
  | nil =>
    obtain rfl : pairs = done := by simpa using hsplit
    refine ⟨[], before, w, ?_, ?_, hinv, .nil⟩
    · simp [hits]
    · have hpayload : q.payload = rest := hpayload
      rw [List.length_nil, Nat.mul_zero, Position.past_zero hpayload]
      exact hat
  | cons pair todo ih =>
    obtain ⟨hpair, htype⟩ := hpairs pair (by simp [hsplit])
    have hafford : q.Affords (2 + 2 * todo.length) := by
      rw [List.length_cons] at hafford
      exact hafford.mono (by omega)
    rw [pairBytes_cons, List.append_assoc, List.append_assoc] at hpayload
    have hlt : numDecoded < entries.length := by omega
    -- the pair has been taken, and the induction hypothesis is about the rest
    have hrest : ∀ visit w₁, decodeNext lib entries before w = .passed visit w₁ →
        visit.Of d entries pair → d.At w₁.zsd (q.past 2 (pairBytes todo ++ rest)) →
        inv (done ++ [pair]) w₁.out →
        ∃ visits key w', decodeEntries lib entries ((pair :: todo).length + fuel) before
            numDecoded w =
          ((decodeEntries lib entries fuel key (numDecoded + hits entries (pair :: todo)) w').1,
            visits ++ (decodeEntries lib entries fuel key
              (numDecoded + hits entries (pair :: todo)) w').2.1,
            (decodeEntries lib entries fuel key
              (numDecoded + hits entries (pair :: todo)) w').2.2) ∧
          d.At w'.zsd (q.past (2 * (pair :: todo).length) rest) ∧ inv pairs w'.out ∧
          List.Forall₂ (Visit.Of d entries) (pair :: todo) visits := by
      intro visit w₁ hstep hof hat₁ hinv₁
      have hnumDecoded : numDecoded + hits entries (pair :: todo) =
          visit.count numDecoded + hits entries todo := by
        rw [hits_cons, Visit.count, hof.selected]
        split <;> omega
      obtain ⟨visits, key, w', heq, hat', hinv', hvisits⟩ :=
        ih visit.key (visit.count numDecoded) (hsplit.trans (by simp)) hat₁ halike.past hafford.past
          rfl hinv₁ (by omega)
      refine ⟨visit :: visits, key, w', ?_, ?_, hinv', .cons hof hvisits⟩
      · rw [List.length_cons, Nat.add_right_comm, decodeEntries_of_passed _ hlt hstep, hnumDecoded,
          heq]
        rfl
      · rw [Position.past_past] at hat'
        rw [List.length_cons, Nat.mul_succ, Nat.add_comm]
        exact hat'
    cases hplace : place entries pair.key with
    | none =>
      obtain ⟨visit, w₁, hstep, hof, hat₁, hout⟩ :=
        hlib.decodeNext_skip before hat (hafford.mono (by omega)) hpayload hpair htable
          htype hplace
      refine hrest visit w₁ hstep hof hat₁ ?_
      rw [hout]
      exact hskips done pair todo hsplit hplace w.out hinv
    | some i =>
      obtain ⟨entry, hentry, -⟩ := getElem?_of_place hplace
      obtain ⟨key, w₁, hat₁, hout, hstep⟩ :=
        hlib.decodeNext_hit before hat (hafford.mono (by omega)) hpayload hpair.labels
          htable htype hplace hentry
      have hvalue : (q.next (pair.value ++ (pairBytes todo ++ rest))).HasNext :=
        (Position.Affords.past (m := 1) (n := 1) (hafford.mono (by omega))).hasNext one_pos
      obtain ⟨w₂, hdecode, hat₂, hinv₂⟩ :=
        htakes done pair todo hsplit i entry hplace hentry w₁ _ _ hat₁ halike.past hvalue rfl
          (by rw [hout]; exact hinv)
      rw [hdecode] at hstep
      rw [Position.next_eq_past, Position.next_eq_past, Position.past_past] at hat₂
      exact hrest _ w₂ hstep ⟨hplace.symm, _, _, hat₁, rfl⟩ hat₂ hinv₂

end Runs

end Golioth.Zcbor
