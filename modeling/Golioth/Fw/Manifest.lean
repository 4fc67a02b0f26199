/-
# Orders of a manifest

`golioth_fw_desired_parse` looks up two keys of the manifest and, inside of the list
under one of them, two keys of a component. `zcbor_map_decode` leaves a map as soon
as it has found all keys, by force, and then the payload goes on with what is left of
the component: its list may not end there, and the entries that are left of the
component are read as if they were entries of the manifest.
-/
import Golioth.Fw
import Golioth.Zcbor.Lookup
import Mathlib.Data.List.DropRight

namespace Golioth.Fw

open CS CS.Cbor Golioth.Zcbor

variable {S : Type}

/-! ## Manifests -/

/-- A manifest: the entries before and after the one for the components, and the entries of the
one component. -/
structure Manifest where
  framing : Framing
  head : List UInt8
  before : List Pair
  componentsLabel : List UInt8
  listFraming : Framing
  listHead : List UInt8
  componentFraming : Framing
  componentHead : List UInt8
  component : List Pair
  after : List Pair

namespace Manifest

variable (m : Manifest)

def componentItem : List UInt8 :=
  m.componentHead ++ (pairBytes m.component ++ m.componentFraming.close)

/-- The entry for the components: a list of one component. -/
def components : Pair where
  key := .u32 manifestKeyComponents
  label := m.componentsLabel
  value := m.listHead ++ (m.componentItem ++ m.listFraming.close)

def pairs : List Pair := m.before ++ m.components :: m.after

def payload : List UInt8 := m.head ++ (pairBytes m.pairs ++ m.framing.close)

/-- A value of type `int64_t`. -/
def IsInt64 (item : List UInt8) : Prop :=
  ∃ value, IntegerItem value item ∧ -2 ^ 63 ≤ value ∧ value < 2 ^ 63

/-- The manifest is a well-formed map with unsigned keys, which are different from each other and
among them a sequence number and the components, and the component is one with a version and a
URI. -/
structure WellFormed (profile : Profile) (version uri : List UInt8) : Prop where
  head : m.framing.Opens profile 5 m.pairs.length m.head
  listHead : m.listFraming.Opens profile 4 1 m.listHead
  componentHead : m.componentFraming.Opens profile 5 m.component.length m.componentHead
  componentsLabel : (Key.u32 manifestKeyComponents).Labels profile m.componentsLabel
  pairs : ∀ pair ∈ m.before ++ m.after, pair.WellFormed profile ∧ pair.key.type = .u32
  keys : (m.pairs.map Pair.key).Nodup
  component : ∀ pair ∈ m.component, pair.WellFormed profile ∧ pair.key.type = .u32
  componentKeys : (m.component.map Pair.key).Nodup
  sequenceNumber : ∃ pair ∈ m.before ++ m.after,
    pair.key = .u32 manifestKeySequenceNumber ∧ IsInt64 pair.value
  version : ∃ pair ∈ m.component,
    pair.key = .u32 componentKeyVersion ∧ TextItem profile version pair.value
  uri : ∃ pair ∈ m.component, pair.key = .u32 componentKeyUri ∧ TextItem profile uri pair.value

/-- The entries of the component after the last one that is looked for. -/
def unread : List Pair :=
  m.component.rtakeWhile fun pair =>
    decide (pair.key ≠ .u32 componentKeyVersion ∧ pair.key ≠ .u32 componentKeyUri)

theorem mem_component_of_mem_unread {pair : Pair} (h : pair ∈ m.unread) : pair ∈ m.component := by
  have hsuffix : m.unread <:+ m.component := List.rtakeWhile_suffix _ _
  exact hsuffix.subset h

/-- What the client reads as entries of the manifest after the components: the rest of the
component, and what follows it unless a break is in between, but no more of it than there is left
of a manifest of definite length. -/
def misread : List Pair :=
  let pairs := m.unread ++
    match m.componentFraming with
    | .definite => m.after
    | .indefinite => []
  match m.framing with
  | .definite => pairs.take m.after.length
  | .indefinite => pairs

/-- The first of the entries with a key of the manifest is this one. -/
def FindsFirst (pairs : List Pair) (found : Pair) : Prop :=
  ∃ others rest, pairs = others ++ found :: rest ∧
    (∀ pair ∈ others, pair.key ≠ .u32 manifestKeySequenceNumber ∧
      pair.key ≠ .u32 manifestKeyComponents) ∧
    (found.key = .u32 manifestKeySequenceNumber ∨ found.key = .u32 manifestKeyComponents)

/-- The first of the entries with a key of the manifest is a sequence number. -/
def FindsSequenceNumber (pairs : List Pair) : Prop :=
  ∃ found, FindsFirst pairs found ∧ found.key = .u32 manifestKeySequenceNumber ∧
    IsInt64 found.value

/-- The client takes an entry of the component for the components of the manifest. -/
def TakesForComponents : Prop :=
  (∀ pair ∈ m.before, pair.key ≠ .u32 manifestKeySequenceNumber) ∧
    ∃ found, FindsFirst m.misread found ∧ found.key = .u32 manifestKeyComponents

/-- The list of the components ends where the client looks for its end, and the client comes to a
sequence number: before the components, or in what it reads after them. -/
structure Readable : Prop where
  listEnd : m.listFraming = .definite ∨ m.unread = []
  sequenceNumber : (∃ pair ∈ m.before, pair.key = .u32 manifestKeySequenceNumber) ∨
    FindsSequenceNumber m.misread

end Manifest

/-! ## What is copied -/

/-- The buffer of the caller holds a text, with its length. -/
structure ComponentTstrValue.Holds (buffer : ComponentTstrValue) (text : List UInt8) : Prop where
  valueLen : buffer.valueLen = text.length
  value : buffer.value.take text.length = text

theorem ComponentTstrValue.holds_copy (buffer : ComponentTstrValue) (text : List UInt8) :
    (buffer.copy text).Holds text :=
  ⟨rfl, List.take_left⟩

/-- The manifest has been parsed. -/
structure Parsed (version uri : List UInt8) (result : Walked S (FwVars S)) : Prop where
  ret : result.1 = some 0
  version : result.2.out.version.Holds version
  uri : result.2.out.uri.Holds uri

/-! ## The component -/

section Component

variable {lib : ZcborDecode S} {d : Decoding S} {p q : Position} {w : Cursor S (FwVars S)}
  {m : Manifest} {version uri rest : List UInt8} {fuel : ℕ} {vars : FwVars S}

/-- The variables after some of the entries of the component: what has been copied for each of the
keys. -/
def Copied (version uri : List UInt8) (vars : FwVars S) (done : List Pair) (out : FwVars S) : Prop :=
  out = { vars with
    version := if .u32 componentKeyVersion ∈ done.map Pair.key then vars.version.copy version
      else vars.version
    uri := if .u32 componentKeyUri ∈ done.map Pair.key then vars.uri.copy uri else vars.uri }

/-- `component_entry_decode_value` copies a text that fits. -/
theorem componentEntryDecodeValue_takes (hlib : Conforms lib d)
    (get : FwVars S → ComponentTstrValue) (set : ComponentTstrValue → FwVars S → FwVars S)
    {text item : List UInt8} (hat : d.At w.zsd q) (hnext : q.HasNext)
    (hpayload : q.payload = item ++ rest) (hitem : TextItem d.profile text item)
    (hfits : text.length ≤ (get w.out).valueLen) :
    ∃ w', componentEntryDecodeValue lib get set w = (some 0, w') ∧ d.At w'.zsd (q.next rest) ∧
      w'.out = set ((get w.out).copy text) w.out := by
  obtain ⟨str, zsd', hdecode, htext, hat'⟩ := hlib.tstr.takes hat hnext hpayload hitem
  have htext' : lib.text zsd' str = text := (hlib.text_eq hat' str).trans htext
  have hlen : str.len = text.length := by
    rw [← htext', ZcborDecode.text, ZcborDecode.length_bytes]
  refine ⟨{ w with zsd := zsd', out := set ((get w.out).copy text) w.out }, ?_, hat', rfl⟩
  rw [componentEntryDecodeValue, hdecode]
  dsimp only
  rw [if_neg (by omega), htext']

theorem place_componentEntries (lib : ZcborDecode S) {key : Key} :
    place (componentEntries lib) key = none ↔
      key ≠ .u32 componentKeyVersion ∧ key ≠ .u32 componentKeyUri := by
  simp [place_eq_none_iff, componentEntries]

/-- The entries of the component are copied one after the other. -/
theorem takesAll_component (hlib : Conforms lib d) (hm : m.WellFormed d.profile version uri)
    (hversion : version.length ≤ vars.version.valueLen) (huri : uri.length ≤ vars.uri.valueLen) :
    TakesAll d p (componentEntries lib) m.component (Copied version uri vars) where
  takes := by
    intro done pair after hsplit i entry hplace hentry w q rest hat halike hnext hpayload hcopied
    have hmem : pair ∈ m.component := by simp [hsplit]
    have hkeys := hm.componentKeys
    -- the entries before this one are for other keys
    have hfresh : pair.key ∉ done.map Pair.key := by
      rw [hsplit, List.map_append, List.map_cons] at hkeys
      exact fun hdone => (List.nodup_append.mp hkeys).2.2 _ hdone _ List.mem_cons_self rfl
    obtain ⟨other, hother, hkey⟩ := getElem?_of_place hplace
    obtain rfl := Option.some_inj.mp (hentry.symm.trans hother)
    have hentry := List.mem_of_getElem? hentry
    simp only [componentEntries, List.mem_cons, List.not_mem_nil, or_false] at hentry
    rcases hentry with rfl | rfl
    · have hkey : pair.key = .u32 componentKeyVersion := hkey.symm
      rw [hkey] at hfresh
      obtain ⟨w', hdecode, hat', hout⟩ := componentEntryDecodeValue_takes hlib FwVars.version
        (fun buffer vars => { vars with version := buffer }) hat hnext hpayload
        (value_of_key hkeys hmem hm.version hkey) (by rw [hcopied]; simpa [hfresh] using hversion)
      refine ⟨w', hdecode, hat', ?_⟩
      have hother : Key.u32 componentKeyUri ≠ .u32 componentKeyVersion := by decide
      rw [Copied, hout, hcopied]
      simp [hkey, hfresh, hother]
    · have hkey : pair.key = .u32 componentKeyUri := hkey.symm
      rw [hkey] at hfresh
      obtain ⟨w', hdecode, hat', hout⟩ := componentEntryDecodeValue_takes hlib FwVars.uri
        (fun buffer vars => { vars with uri := buffer }) hat hnext hpayload
        (value_of_key hkeys hmem hm.uri hkey) (by rw [hcopied]; simpa [hfresh] using huri)
      refine ⟨w', hdecode, hat', ?_⟩
      have hother : Key.u32 componentKeyVersion ≠ .u32 componentKeyUri := by decide
      rw [Copied, hout, hcopied]
      simp [hkey, hfresh, hother]
  skips := by
    intro done pair after hsplit hplace out hcopied
    obtain ⟨hversionKey, huriKey⟩ := (place_componentEntries lib).mp hplace
    rw [Copied, hcopied]
    simp [hversionKey.symm, huriKey.symm]

theorem matching_component (lib : ZcborDecode S) (hm : m.WellFormed d.profile version uri) :
    Matching d .u32 (componentEntries lib) m.component where
  table := by simp [TypedTable, componentEntries, Key.type]
  wellFormed := hm.component
  entryKeys := by
    show [Key.u32 componentKeyVersion, Key.u32 componentKeyUri].Nodup
    decide
  pairKeys := hm.componentKeys

/-- The rest of the component begins after the last entry that is looked for. -/
theorem unread_eq {done after : List Pair} {last : Pair} {i : ℕ}
    (hsplit : m.component = done ++ last :: after)
    (hlast : place (componentEntries lib) last.key = some i)
    (hafter : hits (componentEntries lib) after = 0) : m.unread = after := by
  have hwanted : ¬ (last.key ≠ .u32 componentKeyVersion ∧ last.key ≠ .u32 componentKeyUri) := by
    rw [← place_componentEntries lib, hlast]
    exact Option.some_ne_none i
  have hothers : ∀ pair ∈ after.reverse,
      pair.key ≠ .u32 componentKeyVersion ∧ pair.key ≠ .u32 componentKeyUri := by
    intro pair hpair
    rw [← place_componentEntries lib, ← Option.isNone_iff_eq_none, ← Option.not_isSome]
    rw [hits, List.countP_eq_zero] at hafter
    simpa using hafter pair (List.mem_reverse.mp hpair)
  rw [Manifest.unread, List.rtakeWhile, hsplit, List.reverse_append, List.reverse_cons,
    List.append_assoc, List.takeWhile_append_of_pos (by simpa using hothers)]
  have hnone : ([last] ++ done.reverse).takeWhile (fun pair =>
      decide (pair.key ≠ .u32 componentKeyVersion ∧ pair.key ≠ .u32 componentKeyUri)) = [] :=
    List.takeWhile_cons_of_neg (by simpa using hwanted)
  rw [hnone, List.append_nil, List.reverse_reverse]

/-- The map of the component is decoded up to the last entry that is looked for. -/
theorem componentDecode_eq (hlib : Conforms lib d) (hm : m.WellFormed d.profile version uri)
    (hmap : AtMap d m.componentFraming m.component w.zsd q rest)
    (hversion : version.length ≤ w.out.version.valueLen)
    (huri : uri.length ≤ w.out.uri.valueLen) (hfuel : m.component.length < fuel) :
    ∃ w', componentDecode lib fuel w = (some 0, w') ∧
      d.At w'.zsd (q.next (pairBytes m.unread ++ (m.componentFraming.close ++ rest))) ∧
      w'.out.version = w.out.version.copy version ∧ w'.out.uri = w.out.uri.copy uri := by
  have hfound : ∀ entry ∈ componentEntries lib, ∃ pair ∈ m.component, pair.key = entry.key := by
    obtain ⟨versionPair, hversionMem, hversionKey, -⟩ := hm.version
    obtain ⟨uriPair, huriMem, huriKey, -⟩ := hm.uri
    simp only [componentEntries, List.forall_mem_cons]
    exact ⟨⟨versionPair, hversionMem, hversionKey⟩, ⟨uriPair, huriMem, huriKey⟩, by simp⟩
  obtain ⟨visits, w₁, done, last, after, i, hdecode, hsplit, hlast, hafter, hat₁, hcopied, -⟩ :=
    hlib.mapDecode_complete hmap (matching_component lib hm) hfuel (List.cons_ne_nil _ _) hfound
      (takesAll_component hlib hm hversion huri) (by simp [Copied])
  rw [← unread_eq hsplit hlast hafter] at hat₁
  rw [hsplit] at hfound
  have hmem := mem_keys_of_hits_eq_zero hfound hafter
  simp only [componentEntries, List.forall_mem_cons] at hmem
  refine ⟨{ w₁ with out := { w₁.out with visits := w₁.out.visits ++ [visits] } }, ?_, hat₁, ?_, ?_⟩
  · rw [componentDecode, hdecode]
  · rw [hcopied]
    exact if_pos hmem.1
  · rw [hcopied]
    exact if_pos hmem.2.1

/-- The components are decoded up to the last entry that is looked for, and the list ends there
exactly if its end is where the client looks for it. -/
theorem componentsDecode_eq (hlib : Conforms lib d) (hm : m.WellFormed d.profile version uri)
    (hat : d.At w.zsd q) (hnext : q.HasNext) (hroom : 2 ≤ q.room)
    (hpayload : q.payload = m.components.value ++ rest)
    (hversion : version.length ≤ w.out.version.valueLen)
    (huri : uri.length ≤ w.out.uri.valueLen) (hfuel : m.component.length < fuel) :
    (m.listFraming = .definite ∨ m.unread = [] →
      ∃ w', componentsDecode lib fuel w = (some 0, w') ∧
        d.At w'.zsd (q.next (pairBytes m.unread ++ (m.componentFraming.close ++ rest))) ∧
        w'.out.version = w.out.version.copy version ∧ w'.out.uri = w.out.uri.copy uri) ∧
    (¬ (m.listFraming = .definite ∨ m.unread = []) →
      ∃ w', componentsDecode lib fuel w = (some (-Errno.ebadmsg), w')) := by
  have hpayload : q.payload =
      m.listHead ++ (m.componentItem ++ (m.listFraming.close ++ rest)) := by
    rw [hpayload, Manifest.components]
    simp
  obtain ⟨zsd₁, hstart, hat₁⟩ := hlib.listStart hat hnext (by omega) hpayload hm.listHead
  -- inside of the list
  set inList := q.enter (m.componentItem ++ (m.listFraming.close ++ rest))
    (leftOf (1 * 1) m.listFraming) with hinList
  have hmap : AtMap d m.componentFraming m.component ({ w with zsd := zsd₁ } : Cursor S (FwVars S)).zsd
      inList (m.listFraming.close ++ rest) := by
    refine ⟨hat₁, (Position.affords_enter q _ _ _).hasNext one_pos, ?_, m.componentItem,
      ⟨m.componentHead, hm.componentHead, rfl⟩, rfl⟩
    show 0 < q.room - 1
    omega
  obtain ⟨w₂, hdecode, hat₂, hversion₂, huri₂⟩ := componentDecode_eq hlib hm hmap hversion huri hfuel
  have hleft : ∀ bytes, (inList.next bytes).left = leftOf 0 m.listFraming := by
    intro bytes
    rw [Position.left_next, hinList]
    cases m.listFraming <;> rfl
  have hleave : ∀ bytes bytes', (inList.next bytes).leave bytes' = q.next bytes' :=
    fun bytes bytes' => q.leave_enter (by omega) _ bytes' _
  have houter : ∀ bytes, (inList.next bytes).outer ≠ [] := fun bytes => List.cons_ne_nil _ _
  constructor
  · intro hend
    have hclose : pairBytes m.unread ++ (m.componentFraming.close ++ (m.listFraming.close ++ rest)) =
        m.listFraming.close ++ (pairBytes m.unread ++ (m.componentFraming.close ++ rest)) := by
      rcases hend with hlist | hunread
      · rw [hlist]
        rfl
      · -- either break ends the list
        rw [hunread]
        cases m.listFraming <;> cases m.componentFraming <;> rfl
    obtain ⟨zsd₃, hlistEnd, hat₃⟩ := hlib.listEnd.leaves hat₂ (houter _) hclose (hleft _)
    rw [hleave] at hat₃
    refine ⟨{ w₂ with zsd := zsd₃ }, ?_, hat₃, hversion₂, huri₂⟩
    rw [componentsDecode, okOrReturn, hstart]
    simp only [if_pos, hdecode, orReturn, okOrReturn, hlistEnd]
  · intro hend
    rw [not_or] at hend
    obtain ⟨hlist, hunread⟩ := hend
    -- the key of the first entry that is left is where the list should end
    obtain ⟨pair, others, hcons⟩ := List.exists_cons_of_ne_nil hunread
    have hmem : pair ∈ m.component :=
      m.mem_component_of_mem_unread (hcons ▸ List.mem_cons_self)
    obtain ⟨byte, following, hlabel, -⟩ := (hm.component pair hmem).1.labels.initial
    have hbyte : byte ≠ breakCode := (hlabel ▸ (hm.component pair hmem).1.labels).ne_breakCode
    have hrefuses := hlib.listEnd.refuses hat₂
      (by rw [hleft]; cases hframing : m.listFraming with
          | definite => exact absurd hframing hlist
          | indefinite => rfl)
      (by simpa [hcons, hlabel] using hbyte)
    refine ⟨{ w₂ with zsd := (lib.listEndDecode w₂.zsd).2 }, ?_⟩
    rw [componentsDecode, okOrReturn, hstart]
    simp only [if_pos, hdecode, orReturn, okOrReturn, hrefuses]
    rfl

end Component

/-! ## Entries of the manifest -/

section Entries

variable {lib : ZcborDecode S} {d : Decoding S} {p q : Position} {w : Cursor S (FwVars S)}
  {m : Manifest} {version uri rest : List UInt8} {fuel : ℕ} {vars : FwVars S}
  {pairs others : List Pair} {found : Pair}

theorem place_manifestEntries {key : Key} :
    place (manifestEntries lib fuel) key = none ↔
      key ≠ .u32 manifestKeySequenceNumber ∧ key ≠ .u32 manifestKeyComponents := by
  simp [place_eq_none_iff, manifestEntries]

theorem typed_manifestEntries (lib : ZcborDecode S) (fuel : ℕ) :
    TypedTable (manifestEntries lib fuel) .u32 := by
  simp [TypedTable, manifestEntries, Key.type]

theorem keys_manifestEntries (lib : ZcborDecode S) (fuel : ℕ) :
    ((manifestEntries lib fuel).map ZcborMapEntry.key).Nodup := by
  show [Key.u32 manifestKeySequenceNumber, Key.u32 manifestKeyComponents].Nodup
  decide

theorem place_sequenceNumber (lib : ZcborDecode S) (fuel : ℕ) :
    place (manifestEntries lib fuel) (.u32 manifestKeySequenceNumber) = some 0 := rfl

theorem place_components (lib : ZcborDecode S) (fuel : ℕ) :
    place (manifestEntries lib fuel) (.u32 manifestKeyComponents) = some 1 := rfl

/-- The texts are the ones of other variables. -/
structure SameTexts (vars out : FwVars S) : Prop where
  version : out.version = vars.version
  uri : out.uri = vars.uri

/-- Where there is no list of components, the entries leave the texts as they are. -/
theorem takesAll_numbers (hlib : Conforms lib d)
    (hcomponents : ∀ pair ∈ pairs, pair.key ≠ .u32 manifestKeyComponents)
    (hnumbers : ∀ pair ∈ pairs, pair.key = .u32 manifestKeySequenceNumber →
      Manifest.IsInt64 pair.value) :
    TakesAll d p (manifestEntries lib fuel) pairs fun _ => SameTexts vars where
  takes := by
    intro done pair after hsplit i entry hplace hentry w q rest hat halike hnext hpayload hsame
    have hmem : pair ∈ pairs := by simp [hsplit]
    obtain ⟨other, hother, hkey⟩ := getElem?_of_place hplace
    obtain rfl := Option.some_inj.mp (hentry.symm.trans hother)
    have hentry := List.mem_of_getElem? hentry
    simp only [manifestEntries, List.mem_cons, List.not_mem_nil, or_false] at hentry
    rcases hentry with rfl | rfl
    · obtain ⟨value, hitem, hrange⟩ := hnumbers pair hmem hkey.symm
      obtain ⟨w', hdecode, hat', hout⟩ := @Conforms.int64_takes _ _ _ _ hlib (fun value vars =>
        { vars with sequenceNumber := { value := value, decoded := true } }) _ _ _ _ _ hat hnext
        hpayload hitem hrange
      refine ⟨w', hdecode, hat', ?_⟩
      rw [hout]
      exact ⟨hsame.version, hsame.uri⟩
    · exact absurd hkey.symm (hcomponents pair hmem)
  skips _ _ _ _ _ _ hsame := hsame

/-- What is read as entries of the manifest is the beginning of what is left of the payload, and
then the client sees the end of the manifest, or a break. -/
theorem Manifest.payload_misread (m : Manifest) :
    ∃ tail, pairBytes m.unread ++ (m.componentFraming.close ++
        (pairBytes m.after ++ m.framing.close)) = pairBytes m.misread ++ tail ∧
      (m.framing = .definite → m.misread.length ≤ m.after.length) ∧
      (m.framing = .definite ∧ m.misread.length = m.after.length ∨
        ∃ tail', tail = breakCode :: tail') := by
  rw [Manifest.misread]
  cases hframing : m.framing with
  | definite =>
    cases hcomponent : m.componentFraming with
    | definite =>
      refine ⟨pairBytes ((m.unread ++ m.after).drop m.after.length), ?_, fun _ => ?_,
        .inl ⟨rfl, ?_⟩⟩
      · rw [← pairBytes_append, List.take_append_drop]
        simp [Framing.close]
      · simp
      · simp
    | indefinite =>
      have htake : pairBytes m.unread = pairBytes (m.unread.take m.after.length) ++
          pairBytes (m.unread.drop m.after.length) := by
        rw [← pairBytes_append, List.take_append_drop]
      refine ⟨pairBytes (m.unread.drop m.after.length) ++ breakCode :: pairBytes m.after, ?_,
        fun _ => ?_, ?_⟩
      · simp [Framing.close, htake]
      · simp
      · rcases le_or_gt m.after.length m.unread.length with hle | hlt
        · exact .inl ⟨rfl, by simp [hle]⟩
        · exact .inr ⟨pairBytes m.after, by simp [List.drop_eq_nil_of_le hlt.le]⟩
  | indefinite =>
    cases hcomponent : m.componentFraming with
    | definite => exact ⟨[breakCode], by simp [Framing.close], by simp, .inr ⟨[], rfl⟩⟩
    | indefinite =>
      exact ⟨breakCode :: (pairBytes m.after ++ [breakCode]), by simp [Framing.close], by simp,
        .inr ⟨_, rfl⟩⟩

theorem Manifest.mem_of_mem_misread (m : Manifest) {pair : Pair} (h : pair ∈ m.misread) :
    pair ∈ m.unread ∨ pair ∈ m.after := by
  rw [Manifest.misread] at h
  cases hframing : m.framing <;> cases hcomponent : m.componentFraming <;>
    rw [hframing, hcomponent] at h
  · exact List.mem_append.mp (List.mem_of_mem_take h)
  · exact .inl (by simpa using List.mem_of_mem_take h)
  · exact List.mem_append.mp h
  · exact .inl (by simpa using h)

theorem Manifest.WellFormed.misread {profile : Profile} (hm : m.WellFormed profile version uri) :
    ∀ pair ∈ m.misread, pair.WellFormed profile ∧ pair.key.type = .u32 := by
  intro pair hpair
  rcases m.mem_of_mem_misread hpair with hunread | hafter
  · exact hm.component pair (m.mem_component_of_mem_unread hunread)
  · exact hm.pairs pair (List.mem_append_right _ hafter)

theorem hits_manifestEntries (h : ∀ pair ∈ pairs, pair.key ≠ .u32 manifestKeySequenceNumber ∧
    pair.key ≠ .u32 manifestKeyComponents) : hits (manifestEntries lib fuel) pairs = 0 := by
  rw [hits, List.countP_eq_zero]
  intro pair hpair
  rw [place_manifestEntries.mpr (h pair hpair)]
  exact Bool.false_ne_true

/-- An item that is not a number for the variable is not decoded into it. -/
theorem int64_fails (hlib : Conforms lib d) {assign : ℤ → FwVars S → FwVars S}
    {item : List UInt8} (hat : d.At w.zsd q) (hpayload : q.payload = item ++ rest)
    (hitem : WellFormed d.profile item) (hnot : ¬ Manifest.IsInt64 item) :
    ∃ w', zcborMapInt64Decode lib assign w = (some (-Errno.ebadmsg), w') := by
  have hrefuses : ∀ item' rest' value, q.payload = item' ++ rest' →
      ¬ (IntegerItem value item' ∧ -2 ^ 63 ≤ value ∧ value < 2 ^ 63) := by
    rintro item' rest' value hpayload' ⟨hinteger, hrange⟩
    have hsame : item = item' := by
      obtain ⟨n, ⟨hhead, -⟩ | ⟨hhead, -⟩⟩ := hinteger
      · exact hitem.eq_head hhead (.inl (by decide)) (hpayload.symm.trans hpayload')
      · exact hitem.eq_head hhead (.inl (by decide)) (hpayload.symm.trans hpayload')
    exact hnot ⟨value, hsame ▸ hinteger, hrange⟩
  obtain ⟨zsd', hdecode, -⟩ := hlib.int64.refuses hat hrefuses
  exact ⟨{ w with zsd := zsd' }, by rw [zcborMapInt64Decode, hdecode]⟩

/-- Where the client stands after the components. -/
structure Manifest.PastComponents (m : Manifest) (q : Position) : Prop where
  left : q.left = leftOf (2 * m.after.length) m.framing
  payload : q.payload = pairBytes m.unread ++ (m.componentFraming.close ++
    (pairBytes m.after ++ m.framing.close))

theorem Manifest.PastComponents.affords (hpast : m.PastComponents q) :
    q.Affords (2 * m.misread.length) := by
  obtain ⟨-, -, hlength, -⟩ := m.payload_misread
  intro n hn
  rw [hpast.left] at hn
  cases hframing : m.framing with
  | definite =>
    rw [hframing] at hn
    have := hlength hframing
    have hn : 2 * m.after.length = n := Option.some_inj.mp hn
    omega
  | indefinite =>
    rw [hframing] at hn
    cases hn

/-- A sequence number after the components is found. -/
theorem decodeEntries_finds (hlib : Conforms lib d) (hm : m.WellFormed d.profile version uri)
    (fuel steps : ℕ) (key : ZcborMapKey) (hat : d.At w.zsd q) (hpast : m.PastComponents q)
    (hfinds : Manifest.FindsSequenceNumber m.misread) (hsteps : m.misread.length < steps) :
    ∃ visits w' q', decodeEntries lib (manifestEntries lib fuel) steps key 1 w =
        (.finished (manifestEntries lib fuel).length, visits, w') ∧
      d.At w'.zsd q' ∧ q.Alike q' ∧ SameTexts w.out w'.out := by
  obtain ⟨tail, hpayload, -⟩ := m.payload_misread
  have hafford := hpast.affords
  have hwf := hm.misread
  obtain ⟨found, ⟨others, after, hsplit, hothers, -⟩, hkey, hnumber⟩ := hfinds
  have hsplit : m.misread = (others ++ [found]) ++ after := by rw [hsplit, List.append_cons]
  have hlength : m.misread.length = others.length + 1 + after.length := by
    rw [hsplit, List.length_append, List.length_append, List.length_singleton]
  rw [hsplit, pairBytes_append, List.append_assoc] at hpayload
  have hcomponents : ∀ pair ∈ others ++ [found], pair.key ≠ .u32 manifestKeyComponents := by
    intro pair hpair
    rcases List.mem_append.mp hpair with hothers' | hfound
    · exact (hothers pair hothers').2
    · rw [List.mem_singleton.mp hfound, hkey]
      decide
  have hnumbers : ∀ pair ∈ others ++ [found], pair.key = .u32 manifestKeySequenceNumber →
      Manifest.IsInt64 pair.value := by
    intro pair hpair hpairKey
    rcases List.mem_append.mp hpair with hothers' | hfound
    · exact absurd hpairKey (hothers pair hothers').1
    · rw [List.mem_singleton.mp hfound]
      exact hnumber
  obtain ⟨visits, w', hloop, hat', hsame, -⟩ := hlib.decodeEntries_last key 1 steps
    (typed_manifestEntries lib fuel)
    (fun pair hpair => hwf pair (hsplit ▸ List.mem_append_left _ hpair))
    (takesAll_numbers hlib hcomponents hnumbers) hat (.refl q) (hafford.mono (by omega))
    (hpast.payload.trans hpayload) ⟨rfl, rfl⟩ (hkey ▸ place_sequenceNumber lib fuel)
    (by rw [hits_manifestEntries hothers]; rfl) (by omega)
  exact ⟨visits, w', _, hloop, hat', (Position.Alike.refl q).past, hsame⟩

/-- Where no sequence number is found after the components, and no other components are, the
manifest is refused. -/
theorem decodeEntries_misses (hlib : Conforms lib d) (hm : m.WellFormed d.profile version uri)
    (fuel steps : ℕ) (key : ZcborMapKey) (hat : d.At w.zsd q) (hpast : m.PastComponents q)
    (hcomponents : ∀ found, Manifest.FindsFirst m.misread found →
      found.key ≠ .u32 manifestKeyComponents)
    (hmisses : ¬ Manifest.FindsSequenceNumber m.misread) (hsteps : m.misread.length < steps) :
    ∃ visits w', decodeEntries lib (manifestEntries lib fuel) steps key 1 w =
        (.finished 1, visits, w') ∨
      decodeEntries lib (manifestEntries lib fuel) steps key 1 w =
        (.returned (-Errno.ebadmsg), visits, w') := by
  obtain ⟨tail, hpayload, -, hends⟩ := m.payload_misread
  have hafford := hpast.affords
  have hwf := hm.misread
  by_cases hfound : ∃ pair ∈ m.misread, pair.key = .u32 manifestKeySequenceNumber ∨
      pair.key = .u32 manifestKeyComponents
  · -- the first one is a sequence number, but not a number
    obtain ⟨others, found, after, hsplit, hkey, hothers⟩ := exists_first hfound
    have hsplit' : m.misread = (others ++ [found]) ++ after := by rw [hsplit, List.append_cons]
    have hlength : m.misread.length = others.length + 1 + after.length := by
      rw [hsplit', List.length_append, List.length_append, List.length_singleton]
    have hfoundMem : found ∈ m.misread := by simp [hsplit]
    have hnone : ∀ pair ∈ others, pair.key ≠ .u32 manifestKeySequenceNumber ∧
        pair.key ≠ .u32 manifestKeyComponents := fun pair hpair =>
      not_or.mp (hothers pair hpair)
    have hfirst : Manifest.FindsFirst m.misread found := ⟨others, after, hsplit, hnone, hkey⟩
    have hkey : found.key = .u32 manifestKeySequenceNumber :=
      hkey.resolve_right (hcomponents found hfirst)
    have hnot : ¬ Manifest.IsInt64 found.value := fun hnumber =>
      hmisses ⟨found, hfirst, hkey, hnumber⟩
    rw [hsplit', pairBytes_append, List.append_assoc] at hpayload
    have herr : -Errno.ebadmsg ≠ 0 := by decide
    have hcount : 1 + hits (manifestEntries lib fuel) others < (manifestEntries lib fuel).length := by
      rw [hits_manifestEntries hnone]
      exact Nat.one_lt_two
    obtain ⟨visits, w', hloop⟩ := hlib.decodeEntries_fail key 1 steps
      (typed_manifestEntries lib fuel)
      (fun pair hpair => hwf pair (hsplit' ▸ List.mem_append_left _ hpair))
      (takesAll_numbers hlib (fun pair hpair => (hnone pair hpair).2)
        fun pair hpair hpairKey => absurd hpairKey (hnone pair hpair).1)
      hat (.refl q) (hafford.mono (by omega)) (hpast.payload.trans hpayload) ⟨rfl, rfl⟩
      (hkey ▸ place_sequenceNumber lib fuel) rfl
      (fun w q rest hat _ _ hpayload _ => by
        dsimp only
        exact int64_fails hlib hat hpayload (hwf found hfoundMem).1.value hnot)
      herr hcount (by omega)
    exact ⟨visits, w', .inr hloop⟩
  · have hnone : ∀ pair ∈ m.misread, pair.key ≠ .u32 manifestKeySequenceNumber ∧
        pair.key ≠ .u32 manifestKeyComponents := fun pair hpair =>
      not_or.mp fun hkey => hfound ⟨pair, hpair, hkey⟩
    have hhits : hits (manifestEntries lib fuel) m.misread = 0 := hits_manifestEntries hnone
    obtain ⟨steps, rfl⟩ : ∃ more, steps = m.misread.length + (more + 1) :=
      ⟨steps - m.misread.length - 1, by omega⟩
    have htakes : TakesAll d q (manifestEntries lib fuel) m.misread fun _ => SameTexts w.out :=
      takesAll_numbers hlib (fun pair hpair => (hnone pair hpair).2)
        fun pair hpair hkey => absurd hkey (hnone pair hpair).1
    obtain ⟨visits, key', w₁, hloop, hat₁, -, -⟩ := hlib.decodeEntries_pass key 1 (steps + 1)
      (typed_manifestEntries lib fuel) hwf htakes.takes htakes.skips
      (List.nil_append m.misread).symm hat (.refl q) hafford (hpast.payload.trans hpayload)
      ⟨rfl, rfl⟩ (by rw [hhits]; exact Nat.one_lt_two)
    rw [hhits] at hloop
    -- the manifest ends, or there is a break in place of a key
    have hnext : ∃ w', decodeNext lib (manifestEntries lib fuel) key' w₁ = .atEnd w' ∨
        decodeNext lib (manifestEntries lib fuel) key' w₁ = .returned (-Errno.ebadmsg) [] w' := by
      rcases hends with ⟨hframing, hall⟩ | ⟨tail', rfl⟩
      · have hleft : (q.past (2 * m.misread.length) tail).left = leftOf 0 .definite := by
          rw [Position.past, hpast.left, hframing, hall]
          simp [leftOf]
        have hrecord : d.At (w₁.record (.key w₁.zsd)).zsd _ := hat₁
        have hclose : (q.past (2 * m.misread.length) tail).payload = Framing.definite.close ++ tail :=
          rfl
        obtain ⟨w', hend, -⟩ := hlib.atEnd hrecord hleft hclose
        exact ⟨w', .inl (by rw [decodeNext, hend])⟩
      · exact hlib.decodeNext_break key' hat₁ rfl
    obtain ⟨w', hnext | hnext⟩ := hnext
    · exact ⟨visits ++ [], w', .inl (by rw [hloop, decodeEntries, hnext]; rfl)⟩
    · exact ⟨visits ++ [], w', .inr (by rw [hloop, decodeEntries, hnext]; rfl)⟩

/-- The keys before the components. -/
theorem Manifest.WellFormed.before {profile : Profile} (hm : m.WellFormed profile version uri) :
    ∀ pair ∈ m.before ++ m.after, pair.key ≠ .u32 manifestKeyComponents := by
  have hkeys := hm.keys
  rw [Manifest.pairs, List.map_append, List.map_cons, List.nodup_middle] at hkeys
  intro pair hpair hkey
  rw [← List.map_append] at hkeys
  exact (List.nodup_cons.mp hkeys).1 (List.mem_map.mpr ⟨pair, hpair, hkey⟩)

/-- The sequence number is before the components, or after them. -/
theorem hits_before {profile : Profile} (hm : m.WellFormed profile version uri) :
    hits (manifestEntries lib fuel) m.before =
      if ∃ pair ∈ m.before, pair.key = .u32 manifestKeySequenceNumber then 1 else 0 := by
  split
  · rename_i hnumber
    obtain ⟨pair, hpair, hkey⟩ := hnumber
    have hle := hits_le (keys_manifestEntries lib fuel) hm.keys
    have hcomponents : place (manifestEntries lib fuel) m.components.key = some 1 :=
      place_components lib fuel
    rw [Manifest.pairs, hits_append, hits_cons, hcomponents, Option.isSome_some, if_pos rfl] at hle
    have hle : hits (manifestEntries lib fuel) m.before +
      (hits (manifestEntries lib fuel) m.after + 1) ≤ 2 := hle
    have hpos : 0 < hits (manifestEntries lib fuel) m.before := by
      rw [hits, List.countP_pos_iff]
      exact ⟨pair, hpair, by rw [hkey, place_sequenceNumber]; rfl⟩
    omega
  · rename_i hnumber
    exact hits_manifestEntries fun pair hpair =>
      ⟨fun hkey => hnumber ⟨pair, hpair, hkey⟩, hm.before pair (List.mem_append_left _ hpair)⟩

/-- The loop comes past the components exactly if their list ends where the client looks for its
end. -/
theorem decodeEntries_components (hlib : Conforms lib d) (hm : m.WellFormed d.profile version uri)
    (fuel steps : ℕ) (key : ZcborMapKey) (hat : d.At w.zsd q) (hroom : 2 ≤ q.room)
    (hleft : q.left = leftOf (2 * m.pairs.length) m.framing)
    (hpayload : q.payload = pairBytes m.pairs ++ m.framing.close)
    (hversion : version.length ≤ w.out.version.valueLen)
    (huri : uri.length ≤ w.out.uri.valueLen) (hfuel : m.component.length < fuel) :
    (m.listFraming = .definite ∨ m.unread = [] →
      ∃ visits key' w' q',
        decodeEntries lib (manifestEntries lib fuel) (m.before.length + (steps + 1)) key 0 w =
          ((decodeEntries lib (manifestEntries lib fuel) steps key'
              (hits (manifestEntries lib fuel) m.before + 1) w').1,
            visits ++ (decodeEntries lib (manifestEntries lib fuel) steps key'
              (hits (manifestEntries lib fuel) m.before + 1) w').2.1,
            (decodeEntries lib (manifestEntries lib fuel) steps key'
              (hits (manifestEntries lib fuel) m.before + 1) w').2.2) ∧
        d.At w'.zsd q' ∧ q.Alike q' ∧ m.PastComponents q' ∧
        w'.out.version = w.out.version.copy version ∧ w'.out.uri = w.out.uri.copy uri) ∧
    (¬ (m.listFraming = .definite ∨ m.unread = []) →
      ∃ visits w',
        decodeEntries lib (manifestEntries lib fuel) (m.before.length + (steps + 1)) key 0 w =
          (.returned (-Errno.ebadmsg), visits, w')) := by
  have hafford : q.Affords (2 * m.before.length + 2) := by
    intro n hn
    rw [hleft] at hn
    cases hframing : m.framing with
    | definite =>
      rw [hframing] at hn
      have hn : 2 * m.pairs.length = n := Option.some_inj.mp hn
      rw [Manifest.pairs, List.length_append, List.length_cons] at hn
      omega
    | indefinite =>
      rw [hframing] at hn
      cases hn
  have hcount : 0 + hits (manifestEntries lib fuel) m.before < (manifestEntries lib fuel).length := by
    rw [hits_before hm]
    split
    · exact Nat.one_lt_two
    · exact Nat.zero_lt_two
  have hnumbers : ∀ pair ∈ m.before, pair.key = .u32 manifestKeySequenceNumber →
      Manifest.IsInt64 pair.value := by
    intro pair hpair hkey
    obtain ⟨other, hother, hotherKey, hnumber⟩ := hm.sequenceNumber
    have hmem : ∀ pair ∈ m.before ++ m.after, pair ∈ m.pairs := by
      intro pair hpair
      rw [Manifest.pairs, List.mem_append, List.mem_cons]
      rcases List.mem_append.mp hpair with hbefore | hafter
      · exact .inl hbefore
      · exact .inr (.inr hafter)
    obtain rfl := List.inj_on_of_nodup_map hm.keys (hmem other hother)
      (hmem pair (List.mem_append_left _ hpair)) (hotherKey.trans hkey.symm)
    exact hnumber
  have htakes : TakesAll d q (manifestEntries lib fuel) m.before fun _ => SameTexts w.out :=
    takesAll_numbers hlib (fun pair hpair => hm.before pair (List.mem_append_left _ hpair)) hnumbers
  have hbytes : q.payload = pairBytes m.before ++ (m.components.label ++
      (m.components.value ++ (pairBytes m.after ++ m.framing.close))) := by
    rw [hpayload, Manifest.pairs]
    simp
  obtain ⟨visits, key₁, w₁, hloop, hat₁, hsame, -⟩ := hlib.decodeEntries_pass key 0 (steps + 1)
    (typed_manifestEntries lib fuel)
    (fun pair hpair => hm.pairs pair (List.mem_append_left _ hpair)) htakes.takes htakes.skips
    (List.nil_append m.before).symm hat (.refl q) (hafford.mono (by omega)) hbytes ⟨rfl, rfl⟩ hcount
  rw [Nat.zero_add] at hloop hcount
  -- the components
  obtain ⟨key₂, w₂, hat₂, hout, hstep⟩ := hlib.decodeNext_hit key₁ hat₁ hafford.past rfl
    hm.componentsLabel (typed_manifestEntries lib fuel) rfl (place_components lib fuel) rfl
  have hnext : ((q.past (2 * m.before.length) (m.components.label ++ (m.components.value ++
      (pairBytes m.after ++ m.framing.close)))).next (m.components.value ++
      (pairBytes m.after ++ m.framing.close))).HasNext :=
    (Position.Affords.past (m := 1) (n := 1) hafford.past).hasNext one_pos
  obtain ⟨hends, hrefuses⟩ := componentsDecode_eq hlib hm hat₂ hnext hroom rfl
    (by rw [hout, hsame.version]; exact hversion) (by rw [hout, hsame.uri]; exact huri) hfuel
  constructor
  · intro hlist
    obtain ⟨w₃, hdecode, hat₃, hversion₃, huri₃⟩ := hends hlist
    have hdecode : componentsDecode lib fuel w₂ = (some 0, w₃) := hdecode
    have hpassed : decodeNext lib (manifestEntries lib fuel) key₁ w₁ =
        .passed ⟨w₂.zsd, key₂, some 1, some 0⟩ w₃ := by
      rw [hstep]
      dsimp only
      rw [hdecode]
      rfl
    refine ⟨visits ++ [⟨w₂.zsd, key₂, some 1, some 0⟩], key₂, w₃, _, ?_, hat₃,
      (Position.Alike.refl q).past.past.past, ⟨?_, rfl⟩, ?_, ?_⟩
    · rw [hloop, decodeEntries_of_passed steps hcount hpassed]
      simp [Visit.count]
    · simp only [Position.left_next, Position.past, hleft, Manifest.pairs, List.length_append,
        List.length_cons]
      cases m.framing
      · simp only [leftOf, Option.map_some, Option.some_inj]
        omega
      · rfl
    · rw [hversion₃, hout, hsame.version]
    · rw [huri₃, hout, hsame.uri]
  · intro hlist
    obtain ⟨w₃, hdecode⟩ := hrefuses hlist
    have herr : -Errno.ebadmsg ≠ 0 := by decide
    have hreturned : decodeNext lib (manifestEntries lib fuel) key₁ w₁ =
        .returned (-Errno.ebadmsg) [⟨w₂.zsd, key₂, some 1, some (-Errno.ebadmsg)⟩] w₃ := by
      rw [hstep]
      dsimp only
      rw [hdecode, Iteration.ofEntry_of_ne herr]
    exact ⟨visits ++ [⟨w₂.zsd, key₂, some 1, some (-Errno.ebadmsg)⟩], w₃, by
      rw [hloop, decodeEntries, if_pos hcount, hreturned]⟩

end Entries

/-! ## The manifest -/

section Parse

variable {lib : ZcborDecode S} {d : Decoding S} {m : Manifest} {version uri : List UInt8}
  {fuel : ℕ} {vars : FwVars S}

/-- What the caller of `golioth_fw_desired_parse` provides: a well-formed manifest and buffers
that are long enough for the texts. -/
structure Parsing (d : Decoding S) (m : Manifest) (version uri : List UInt8) (vars : FwVars S)
    (fuel : ℕ) : Prop where
  wellFormed : m.WellFormed d.profile version uri
  -- the length of the payload is of type `uint16_t`
  payload : m.payload.length < 2 ^ 16
  version : version.length ≤ vars.version.valueLen
  uri : uri.length ≤ vars.uri.valueLen
  fuel : m.pairs.length + m.component.length < fuel

theorem Manifest.length_misread_le (m : Manifest) :
    m.misread.length ≤ m.component.length + m.after.length := by
  have hunread : m.unread.length ≤ m.component.length := by
    have hsuffix : m.unread <:+ m.component := List.rtakeWhile_suffix _ _
    exact hsuffix.length_le
  rw [Manifest.misread]
  cases m.framing <;> cases m.componentFraming <;>
    simp only [List.length_take, List.length_append, List.append_nil] <;> omega

/-- Both keys have been found. -/
theorem afterLoop_found (hlib : Conforms lib d) {p q : Position} {w : Cursor S (FwVars S)}
    (hroom : 0 < p.room) (hat : d.At w.zsd q) (halike : p.inside.Alike q) :
    ∃ w', afterLoop lib 2 w (.finished 2) = (some 0, w') ∧ w'.out = w.out := by
  obtain ⟨w', hend, -, hout⟩ := hlib.forceEnd_inside hroom hat halike 0
  exact ⟨w', by rw [afterLoop, if_neg (by decide), if_neg (by decide), hend], hout⟩

/-- The manifest is entered. -/
theorem enterManifest (hlib : Conforms lib d) (h : Parsing d m version uri vars fuel) :
    ∃ (p : Position) (w : Cursor S (FwVars S)), 2 < p.room ∧
      d.At w.zsd (p.enter (pairBytes m.pairs ++ m.framing.close)
        (leftOf (2 * m.pairs.length) m.framing)) ∧ w.out = vars ∧
      ∀ {visits loopEnd w'}, decodeEntries lib (manifestEntries lib fuel) fuel
          (lib.unassignedKey (lib.newDecodeState m.payload 1 3)) 0 w = (loopEnd, visits, w') →
        goliothFwDesiredParse lib fuel m.payload vars = afterLoop lib 2 w' loopEnd := by
  obtain ⟨memory, hstart⟩ :=
    hlib.atMap_newDecodeState ⟨m.head, h.wellFormed.head, rfl⟩ h.payload 2
  have hmap : AtMap d m.framing m.pairs (⟨lib.newDecodeState m.payload 1 3, vars, []⟩ :
      Cursor S (FwVars S)).zsd ⟨memory, m.payload, some 1, [], 3⟩ [] := hstart
  obtain ⟨w, hat', hout, hdecode⟩ := hlib.enterMap hmap fuel (manifestEntries lib fuel)
  rw [List.append_nil] at hat'
  refine ⟨_, w, ?_, hat', hout, fun hloop => ?_⟩
  · exact Nat.lt_succ_self 2
  · rw [goliothFwDesiredParse, goliothFwDesiredParseVisits, hdecode hloop]
    rfl

/-- **Manifest.** A manifest is parsed, whatever the order of its keys and whatever else it holds,
if its list of components ends where the client looks for its end, and the client comes to the
sequence number. It is parsed in no other case, unless the client takes an entry of the component
for the components of the manifest. -/
theorem goliothFwDesiredParse_parsed (hlib : Conforms lib d)
    (h : Parsing d m version uri vars fuel) :
    (m.Readable → Parsed version uri (goliothFwDesiredParse lib fuel m.payload vars)) ∧
    (¬ m.TakesForComponents →
      Parsed version uri (goliothFwDesiredParse lib fuel m.payload vars) → m.Readable) := by
  have hm := h.wellFormed
  have hmisread := m.length_misread_le
  have hlength : m.pairs.length = m.before.length + (m.after.length + 1) := by
    rw [Manifest.pairs, List.length_append, List.length_cons]
  have hfuel := h.fuel
  obtain ⟨p, w₁, hroom, hat₁, rfl, hresult⟩ := enterManifest hlib h
  obtain ⟨steps, hsteps⟩ : ∃ steps, fuel = m.before.length + (steps + 1) :=
    ⟨fuel - m.before.length - 1, by omega⟩
  have hroom₁ : 2 ≤ p.room - 1 := by omega
  obtain ⟨hends, hrefuses⟩ := decodeEntries_components hlib hm fuel steps
    (lib.unassignedKey (lib.newDecodeState m.payload 1 3)) hat₁ hroom₁ rfl rfl h.version h.uri
    (by omega)
  rw [← hsteps] at hends hrefuses
  have hfails : ∀ {visits loopEnd w'}, decodeEntries lib (manifestEntries lib fuel) fuel
        (lib.unassignedKey (lib.newDecodeState m.payload 1 3)) 0 w₁ = (loopEnd, visits, w') →
      loopEnd = .finished 1 ∨ loopEnd = .returned (-Errno.ebadmsg) →
      ¬ Parsed version uri (goliothFwDesiredParse lib fuel m.payload w₁.out) := by
    intro visits loopEnd w' hloop hend hparsed
    have hret := hparsed.ret
    rw [hresult hloop] at hret
    rcases hend with rfl | rfl <;> simp [afterLoop, Errno.ebadmsg] at hret
  by_cases hlist : m.listFraming = .definite ∨ m.unread = []
  · obtain ⟨visits, key, w₂, q, hloop, hat₂, halike, hpast, hversion₂, huri₂⟩ := hends hlist
    -- the texts are there when both keys have been found
    have hparsed : ∀ {visits' w₃ q'}, decodeEntries lib (manifestEntries lib fuel) steps key
          (hits (manifestEntries lib fuel) m.before + 1) w₂ = (.finished 2, visits', w₃) →
        d.At w₃.zsd q' → q.Alike q' → SameTexts w₂.out w₃.out →
        Parsed version uri (goliothFwDesiredParse lib fuel m.payload w₁.out) := by
      intro visits' w₃ q' hrest hat₃ halike₃ hsame
      rw [hrest] at hloop
      obtain ⟨w₄, hreturn, hout₄⟩ := afterLoop_found (p := p) hlib (by omega) hat₃
        ⟨halike₃.memory.trans halike.memory, halike₃.outer.trans halike.outer,
          halike₃.room.trans halike.room⟩
      rw [hresult hloop, hreturn]
      refine ⟨rfl, ?_, ?_⟩
      · rw [hout₄, hsame.version, hversion₂]
        exact w₁.out.version.holds_copy version
      · rw [hout₄, hsame.uri, huri₂]
        exact w₁.out.uri.holds_copy uri
    rw [hits_before hm] at hloop hparsed
    by_cases hbefore : ∃ pair ∈ m.before, pair.key = .u32 manifestKeySequenceNumber
    · refine ⟨fun _ => ?_, fun _ _ => ⟨hlist, .inl hbefore⟩⟩
      rw [if_pos hbefore] at hparsed
      obtain ⟨more, rfl⟩ : ∃ more, steps = more + 1 := ⟨steps - 1, by omega⟩
      have hexit : decodeEntries lib (manifestEntries lib fuel) (more + 1) key 2 w₂ =
          (.finished 2, [], w₂) := by
        rw [decodeEntries, if_neg (by simp [manifestEntries])]
      exact hparsed hexit hat₂ (.refl q) ⟨rfl, rfl⟩
    · rw [if_neg hbefore] at hloop hparsed
      constructor
      · intro hreadable
        obtain ⟨visits', w₃, q', hrest, hat₃, halike₃, hsame⟩ := decodeEntries_finds hlib hm fuel
          steps key hat₂ hpast (hreadable.sequenceNumber.resolve_left hbefore) (by omega)
        exact hparsed hrest hat₃ halike₃ hsame
      · intro htakes hparse
        have hcomponents : ∀ found, Manifest.FindsFirst m.misread found →
            found.key ≠ .u32 manifestKeyComponents := fun found hfirst hkey =>
          htakes ⟨fun pair hpair hnumber => hbefore ⟨pair, hpair, hnumber⟩, found, hfirst, hkey⟩
        refine ⟨hlist, .inr (by_contra fun hfinds => ?_)⟩
        obtain ⟨visits', w₃, hrest⟩ := decodeEntries_misses hlib hm fuel steps key hat₂ hpast
          hcomponents hfinds (by omega)
        rcases hrest with hrest | hrest <;> rw [Nat.zero_add, hrest] at hloop
        · exact hfails hloop (.inl rfl) hparse
        · exact hfails hloop (.inr rfl) hparse
  · obtain ⟨visits, w₂, hloop⟩ := hrefuses hlist
    exact ⟨fun hreadable => absurd hreadable.listEnd hlist,
      fun _ hparse => absurd hparse (hfails hloop (.inr rfl))⟩

end Parse

/-! ## Two orders of a component -/

def versionPair : Pair := ⟨.u32 componentKeyVersion, [0x02], [0x61, 0x76]⟩
def uriPair : Pair := ⟨.u32 componentKeyUri, [0x05], [0x61, 0x75]⟩
def packagePair : Pair := ⟨.u32 1, [0x01], [0x64, 0x6d, 0x61, 0x69, 0x6e]⟩

/-- `{3: [component], 1: 5}`, where the component is a map of three entries. -/
def sample (component : List Pair) : Manifest where
  framing := .definite
  head := [0xa2]
  before := []
  componentsLabel := [0x03]
  listFraming := .definite
  listHead := [0x81]
  componentFraming := .definite
  componentHead := [0xa3]
  component := component
  after := [⟨.u32 manifestKeySequenceNumber, [0x01], [0x05]⟩]

def sampleVars : FwVars Reference.State where
  sequenceNumber := { value := 0 }
  version := { value := [0, 0], valueLen := 2 }
  uri := { value := [0, 0], valueLen := 2 }

/-- Both orders are ones of a well-formed manifest. -/
theorem parsing_sample {component : List Pair}
    (hperm : component.Perm [packagePair, versionPair, uriPair]) :
    Parsing Reference.decoding (sample component) (ascii "v") (ascii "u") sampleVars 8 where
  wellFormed := by
    have hlength : component.length = 3 := hperm.length_eq
    have hmem : ∀ pair, pair ∈ component ↔ pair = packagePair ∨ pair = versionPair ∨
        pair = uriPair := fun pair => by rw [hperm.mem_iff]; simp
    have htext : ∀ {head byte : UInt8}, head = 0x61 →
        TextItem Reference.profile [byte] [head, byte] := by
      rintro head byte rfl
      exact ⟨[0x61], ⟨@Head.inside 3 0x61 rfl (by decide), by decide⟩, rfl⟩
    have hlabel : ∀ byte : UInt8, byte.toNat < 24 →
        (Key.u32 (UInt32.ofNat byte.toNat)).Labels Reference.profile [byte] := by
      intro byte hbyte
      have hvalue : (UInt32.ofNat byte.toNat).toNat = byte.toNat % 32 := by
        rw [UInt32.toNat_ofNat']
        omega
      refine ⟨?_, Nat.le_add_left 1 _⟩
      rw [hvalue]
      exact .inside (by omega) (by omega)
    have hnumber : IntegerItem 5 [0x05] := ⟨5, .inl ⟨@Head.inside 0 0x05 rfl (by decide), rfl⟩⟩
    refine ⟨?_, ?_, ?_, hlabel 0x03 (by decide), ?_, ?_, ?_, ?_, ?_, ?_, ?_⟩
    · show Profile.Counts Reference.profile 5 2 [0xa2]
      exact ⟨@Head.inside 5 0xa2 rfl (by decide), by decide⟩
    · show Profile.Counts Reference.profile 4 1 [0x81]
      exact ⟨@Head.inside 4 0x81 rfl (by decide), by decide⟩
    · show Profile.Counts Reference.profile 5 component.length [0xa3]
      rw [hlength]
      exact ⟨@Head.inside 5 0xa3 rfl (by decide), by decide⟩
    · intro pair hpair
      obtain rfl : pair = ⟨.u32 manifestKeySequenceNumber, [0x01], [0x05]⟩ := by
        simpa [sample] using hpair
      exact ⟨⟨hlabel 0x01 (by decide),
        .integer (.inl rfl) (@Head.inside 0 0x05 rfl (by decide))⟩, rfl⟩
    · show [Key.u32 manifestKeyComponents, Key.u32 manifestKeySequenceNumber].Nodup
      decide
    · intro pair hpair
      rcases (hmem pair).mp hpair with rfl | rfl | rfl
      · have hname : TextItem Reference.profile (ascii "main") packagePair.value :=
          ⟨[0x64], ⟨@Head.inside 3 0x64 rfl (by decide), by decide⟩, rfl⟩
        exact ⟨⟨hlabel 0x01 (by decide), hname.wellFormed⟩, rfl⟩
      · exact ⟨⟨hlabel 0x02 (by decide), (htext rfl).wellFormed⟩, rfl⟩
      · exact ⟨⟨hlabel 0x05 (by decide), (htext rfl).wellFormed⟩, rfl⟩
    · show (component.map Pair.key).Nodup
      rw [(hperm.map Pair.key).nodup_iff]
      decide
    · exact ⟨_, List.mem_singleton_self _, rfl, 5, hnumber, by decide, by decide⟩
    · exact ⟨versionPair, (hmem _).mpr (.inr (.inl rfl)), rfl, htext rfl⟩
    · exact ⟨uriPair, (hmem _).mpr (.inr (.inr rfl)), rfl, htext rfl⟩
  payload := by
    have hbytes : (pairBytes component).length = 12 :=
      (hperm.flatMap_right Pair.bytes).length_eq
    simp [Manifest.payload, Manifest.pairs, Manifest.components, Manifest.componentItem, sample,
      Framing.close, hbytes]
  version := by decide
  uri := by decide
  fuel := by
    have hlength : component.length = 3 := hperm.length_eq
    simp [Manifest.pairs, sample, hlength]

theorem goliothFwDesiredParse_parsed_sample :
    Parsed (ascii "v") (ascii "u") (goliothFwDesiredParse Reference.library 8
      (sample [packagePair, versionPair, uriPair]).payload sampleVars) := by
  refine (goliothFwDesiredParse_parsed Reference.conforms (parsing_sample (.refl _))).1
    ⟨.inl rfl, .inr ⟨_, ⟨[], [], rfl, by simp, .inl rfl⟩, rfl, 5, ?_, by decide, by decide⟩⟩
  exact ⟨5, .inl ⟨@Head.inside 0 0x05 rfl (by decide), rfl⟩⟩

/-- With the name of the package after the URI, the client takes it for the sequence number. -/
theorem goliothFwDesiredParse_not_parsed :
    Parsing Reference.decoding (sample [versionPair, uriPair, packagePair]) (ascii "v")
      (ascii "u") sampleVars 8 ∧
    ¬ Parsed (ascii "v") (ascii "u") (goliothFwDesiredParse Reference.library 8
      (sample [versionPair, uriPair, packagePair]).payload sampleVars) := by
  have hret : (goliothFwDesiredParse Reference.library 8
      (sample [versionPair, uriPair, packagePair]).payload sampleVars).1 =
      some (-Errno.ebadmsg) := by decide
  refine ⟨parsing_sample (List.perm_append_singleton packagePair [versionPair, uriPair]),
    fun hparsed => ?_⟩
  rw [hparsed.ret] at hret
  exact absurd hret (by decide)

end Golioth.Fw
