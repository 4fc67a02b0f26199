/-
# Records

A map whose keys are texts and whose values are texts or integers. How its entries are
ordered is up to the one who writes it, and so is whether its length is definite; but what
it says is determined by its bytes up to that order.
-/
import Golioth.CS.CborTokens

namespace CS.Cbor

variable {profile : Profile} {bytes item item' : List UInt8}

/-- The item says the leaf. -/
def Leaf.Item (profile : Profile) : Leaf → List UInt8 → Prop
  | .text content => TextItem profile content
  | .integer value => IntegerItem value

/-- A key and its value. -/
abbrev RecordEntry := List UInt8 × Leaf

/-- The bytes are entries one after the other. -/
inductive RecordBytes (profile : Profile) : List RecordEntry → List UInt8 → Prop
  | nil : RecordBytes profile [] []
  | cons {key label value rest : List UInt8} {leaf : Leaf} {entries : List RecordEntry}
      (hkey : TextItem profile key label) (hvalue : leaf.Item profile value)
      (hrest : RecordBytes profile entries rest) :
      RecordBytes profile ((key, leaf) :: entries) (label ++ (value ++ rest))

/-- The item is a map with the entries, in whatever order. -/
def IsRecord (profile : Profile) (entries : List RecordEntry) (item : List UInt8) : Prop :=
  ∃ (framing : Framing) (written : List RecordEntry) (head bytes : List UInt8),
    framing.Opens profile 5 written.length head ∧
    written.Perm entries ∧ RecordBytes profile written bytes ∧
    item = head ++ (bytes ++ framing.close)

/-- The leaves of entries. -/
def recordLeaves (entries : List RecordEntry) : List Leaf :=
  entries.flatMap fun entry => [.text entry.1, entry.2]

theorem Leaf.Item.token {leaf : Leaf} (h : leaf.Item profile item) : Token item [leaf] := by
  cases leaf with
  | text content => exact TextItem.token h
  | integer value => exact IntegerItem.token h

theorem RecordBytes.append {entries entries' : List RecordEntry} {bytes' : List UInt8}
    (h : RecordBytes profile entries bytes) (h' : RecordBytes profile entries' bytes') :
    RecordBytes profile (entries ++ entries') (bytes ++ bytes') := by
  induction h with
  | nil => exact h'
  | cons hkey hvalue _ ih =>
    rw [List.cons_append, List.append_assoc, List.append_assoc]
    exact .cons hkey hvalue ih

theorem RecordBytes.tokens {entries : List RecordEntry} (h : RecordBytes profile entries bytes) :
    Tokens bytes (recordLeaves entries) := by
  induction h with
  | nil => exact .nil
  | @cons key _ _ _ leaf _ hkey hvalue _ ih =>
    have htail := Tokens.cons hvalue.token ih
    have htokens : Tokens _ ([Leaf.text key] ++ ([leaf] ++ recordLeaves _)) := .cons hkey.token htail
    exact htokens

/-- The leaves tell the entries. -/
theorem recordLeaves_injective : Function.Injective recordLeaves := by
  intro entries entries' heq
  induction entries generalizing entries' with
  | nil =>
    cases entries' with
    | nil => rfl
    | cons => cases heq
  | cons entry entries ih =>
    cases entries' with
    | nil => cases heq
    | cons entry' entries' =>
      obtain ⟨hkey, hrest⟩ := List.cons.inj heq
      obtain ⟨hvalue, hrest⟩ := List.cons.inj hrest
      rw [ih hrest, Prod.ext (Leaf.text.inj hkey) hvalue]

/-- **Unique reading.** A map says its entries and no others. -/
theorem IsRecord.perm {profile' : Profile} {entries entries' : List RecordEntry}
    (h : IsRecord profile entries item) (h' : IsRecord profile' entries' item) :
    entries.Perm entries' := by
  obtain ⟨framing, written, head, bytes, hopens, hperm, hbytes, rfl⟩ := h
  obtain ⟨framing', written', head', bytes', hopens', hperm', hbytes', heq⟩ := h'
  have htokens : Tokens (head ++ (bytes ++ framing.close)) (recordLeaves written) := by
    simpa using (hopens.token (.inr rfl)).tokens.append (hbytes.tokens.append framing.tokens_close)
  have htokens' : Tokens (head' ++ (bytes' ++ framing'.close)) (recordLeaves written') := by
    simpa using
      (hopens'.token (.inr rfl)).tokens.append (hbytes'.tokens.append framing'.tokens_close)
  rw [← heq] at htokens'
  -- what is written is the same, and each is the entries in some order
  have hsame : written = written' := recordLeaves_injective (htokens.unique htokens')
  exact hperm.symm.trans (hsame ▸ hperm')

end CS.Cbor
