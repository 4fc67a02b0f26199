/-
# The keys of a map

`map_entry_get` compares a key with the entries of a table one after the other,
and each comparison is the one for the type of the entry: it does not look at
the type of the key. A comparison with an entry of the other type reads what the
decoding of the key has not set.
-/
import Golioth.Zcbor.Utils
import Golioth.Zcbor.Reference
import Golioth.Rpc

namespace Golioth.Zcbor

/-! ## Linear search -/

section Scanned

variable {α : Type*} {p q : α → Bool} {l : List α}

/-- What a search for the first element with a property looks at. -/
def scanned (p : α → Bool) : List α → List α
  | [] => []
  | a :: l => if p a then [a] else a :: scanned p l

/-- A search looks at the first element. -/
theorem mem_scanned_cons (p : α → Bool) (a : α) (l : List α) : a ∈ scanned p (a :: l) := by
  rw [scanned]
  split <;> exact List.mem_cons_self

theorem mem_scanned_of_findIdx? {i : ℕ} (h : l.findIdx? p = some i) :
    ∃ a, l[i]? = some a ∧ p a = true ∧ a ∈ scanned p l := by
  induction l generalizing i with
  | nil => simp at h
  | cons b l ih =>
    rw [List.findIdx?_cons] at h
    rw [scanned]
    split at h
    · next hb =>
      obtain rfl := Option.some_inj.mp h
      exact ⟨b, rfl, hb, by simp [hb]⟩
    · next hb =>
      obtain ⟨j, hj, rfl⟩ := Option.map_eq_some_iff.mp h
      obtain ⟨a, hget, hpa, hmem⟩ := ih hj
      exact ⟨a, hget, hpa, by simp [hb, hmem]⟩

/-- Two searches that agree on the elements with a property look at elements with the property
alike. -/
theorem forall_scanned_congr {t : α → Prop} (hagree : ∀ a ∈ l, t a → p a = q a) :
    (∀ a ∈ scanned p l, t a) ↔ ∀ a ∈ scanned q l, t a := by
  induction l with
  | nil => rfl
  | cons b l ih =>
    have hrest := ih fun a hmem => hagree a (List.mem_cons_of_mem b hmem)
    by_cases hb : t b
    · have hsame := hagree b List.mem_cons_self hb
      rw [scanned, scanned, ← hsame]
      split
      · rfl
      · simp only [List.forall_mem_cons, hrest]
    · -- both look at the first element, which does not have the property
      exact iff_of_false (fun h => hb (h b (mem_scanned_cons p b l)))
        fun h => hb (h b (mem_scanned_cons q b l))

end Scanned

/-! ## Lookups -/

variable {S σ : Type} {lib : ZcborDecode S} {entries : List (ZcborMapEntry S σ)}

/-- The entries `map_entry_get` compares a key with. -/
def comparedEntries (lib : ZcborDecode S) (entries : List (ZcborMapEntry S σ))
    (visit : Visit S) : List (ZcborMapEntry S σ) :=
  scanned (fun entry => comparesEqual lib visit.zsd visit.key entry.key) entries

/-- A lookup compares the members of the key that its decoding has set, and selects an entry only
if the key is the one of the entry, of the same type and with an equal value. -/
structure Visit.Typed (lib : ZcborDecode S) (entries : List (ZcborMapEntry S σ))
    (visit : Visit S) : Prop where
  compares : ∀ entry ∈ comparedEntries lib entries visit, entry.key.type = visit.key.type
  selects : ∀ i, visit.selected = some i →
    ∃ entry, entries[i]? = some entry ∧ entry.key = visit.key.content lib visit.zsd

/-- The entries of a table up to the one for a key, or all where there is none, are for keys of
its type. -/
def SameTyped (entries : List (ZcborMapEntry S σ)) (key : Key) : Prop :=
  ∀ entry ∈ scanned (fun entry => decide (entry.key = key)) entries, entry.key.type = key.type

theorem type_content (lib : ZcborDecode S) (zsd : S) (key : ZcborMapKey) :
    (key.content lib zsd).type = key.type := by
  rw [ZcborMapKey.content]
  split <;> simp [Key.type, *]

/-- The comparison with an entry is right if the entry has the type of the key. -/
theorem comparesEqual_eq {zsd : S} {key : ZcborMapKey} {other : Key}
    (htype : other.type = key.type) :
    comparesEqual lib zsd key other = decide (other = key.content lib zsd) := by
  cases other with
  | u32 value =>
    have hkey : key.type = .u32 := htype.symm
    simp [comparesEqual, ZcborMapKey.content, hkey]
  | tstr text =>
    have hkey : key.type = .tstr := htype.symm
    rw [comparesEqual, ZcborMapKey.content, hkey]
    by_cases hlen : key.len = text.length
    · simp [hlen, eq_comm]
    · have hne : text ≠ lib.bytes zsd key.word key.len := fun h => hlen (by simp [h])
      simp [hlen, hne]

/-- **Lookup.** A lookup reads only what has been set exactly if the entries up to the one for
the key have the type of the key. -/
theorem typed_iff {visit : Visit S}
    (hselected : visit.selected = mapEntryGet lib visit.zsd entries visit.key) :
    visit.Typed lib entries ↔ SameTyped entries (visit.key.content lib visit.zsd) := by
  have hscan := forall_scanned_congr (l := entries)
    (t := fun entry => entry.key.type = visit.key.type)
    (p := fun entry => comparesEqual lib visit.zsd visit.key entry.key)
    (q := fun entry => decide (entry.key = visit.key.content lib visit.zsd))
    fun entry _ htype => comparesEqual_eq htype
  rw [SameTyped, type_content]
  refine ⟨fun h => hscan.mp h.compares, fun h => ⟨hscan.mpr h, fun i hi => ?_⟩⟩
  obtain ⟨entry, hget, hequal, hmem⟩ := mem_scanned_of_findIdx? (hselected.symm.trans hi)
  have htype := hscan.mpr h entry hmem
  rw [comparesEqual_eq htype] at hequal
  exact ⟨entry, hget, of_decide_eq_true hequal⟩

/-- **Keys.** Whatever a payload holds, the lookups of `zcbor_map_decode` read only what has been
set, and select only entries for the key that was decoded, exactly if each key that is looked
up has the type of the entries up to the one for it. -/
theorem lookups_typed_iff (lib : ZcborDecode S) (fuel : ℕ) (entries : List (ZcborMapEntry S σ))
    (w : Cursor S σ) :
    (∀ visit ∈ (zcborMapDecodeVisits lib fuel entries w).1, visit.Typed lib entries) ↔
      ∀ visit ∈ (zcborMapDecodeVisits lib fuel entries w).1,
        SameTyped entries (visit.key.content lib visit.zsd) :=
  forall₂_congr fun visit hmem => typed_iff (selected_of_visits visit hmem)

/-- Variables of `on_rpc` that have not been assigned to. -/
def unassignedRpc : Rpc.RpcVars Reference.State where
  id := { value := { value := 0, len := 0 } }
  method := { value := { value := 0, len := 0 } }
  params := { value := Reference.newDecodeState [] 0 0 }

/-- A request with an integer for a key: `{5: 0}`. -/
def integerKey : List UInt8 := [0xa1, 0x05, 0x00]

theorem integerKey_not_typed :
    ¬ ∀ visit ∈ (Rpc.decodeRpc Reference.library 2 integerKey unassignedRpc).1,
      visit.Typed Reference.library (Rpc.rpcEntries Reference.library 2) := by
  intro h
  obtain ⟨visit, hmem, hinteger⟩ : ∃ visit ∈
      (Rpc.decodeRpc Reference.library 2 integerKey unassignedRpc).1,
      visit.key.type = .u32 := by decide
  -- the first entry is for a text, whose length and pointer the integer has not set
  have htext := (h visit hmem).compares _ (mem_scanned_cons _ _ _)
  rw [hinteger] at htext
  cases htext

end Golioth.Zcbor
