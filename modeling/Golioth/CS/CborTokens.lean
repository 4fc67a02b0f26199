/-
# CBOR token by token

Bytes that are a sequence of tokens: integers, texts of definite length, the beginnings
of lists and maps, and the marks of what has an indefinite length. A sequence of tokens
is read in one way only, so the integers and texts in it are determined by its bytes,
whatever containers they are arranged in.
-/
import Golioth.CS.Cbor

namespace CS.Cbor

/-! ## Tokens -/

/-- What a token says by itself. -/
inductive Leaf
  | text (content : List UInt8)
  | integer (value : ℤ)
  deriving DecidableEq

/-- What a head says with what follows it. -/
def leavesOf (major argument : ℕ) (content : List UInt8) : List Leaf :=
  match major with
  | 0 => [.integer argument]
  | 1 => [.integer (-1 - argument)]
  | 3 => [.text content]
  | _ => []

/-- The bytes are a token: a head, with a text if there is one, or a mark. -/
inductive Token : List UInt8 → List Leaf → Prop
  | head {major argument : ℕ} {head content : List UInt8} (hhead : Head major argument head)
      (hcontent : content.length = if major = 3 then argument else 0) :
      Token (head ++ content) (leavesOf major argument content)
  | mark {byte : UInt8} (hbyte : byte.toNat % 32 = 31) : Token [byte] []

section Tokens

variable {profile : Profile} {item item' rest rest' : List UInt8} {leaves leaves' : List Leaf}

/-- What begins with a token does so in one way only. -/
theorem Token.unique (h : Token item leaves) (h' : Token item' leaves')
    (heq : item ++ rest = item' ++ rest') : item = item' ∧ leaves = leaves' ∧ rest = rest' := by
  -- the initial byte of a head is not a mark
  have hnot : ∀ {major argument head content rest rest'} {byte : UInt8},
      Head major argument head → byte.toNat % 32 = 31 →
      head ++ content ++ rest ≠ [byte] ++ rest' := by
    intro major argument head content rest rest' byte hhead hbyte heq
    rw [List.append_assoc] at heq
    have := (hhead.initial_of_append heq.symm).2
    omega
  cases h with
  | head hhead hcontent =>
    cases h' with
    | head hhead' hcontent' =>
      rw [List.append_assoc, List.append_assoc] at heq
      obtain ⟨rfl, rfl, rfl, htail⟩ := hhead.unique hhead' heq
      obtain ⟨rfl, rfl⟩ := List.append_inj htail (hcontent.trans hcontent'.symm)
      exact ⟨rfl, rfl, rfl⟩
    | mark hbyte => exact absurd heq (hnot hhead hbyte)
  | mark hbyte =>
    cases h' with
    | head hhead' hcontent' => exact absurd heq.symm (hnot hhead' hbyte)
    | mark hbyte' =>
      obtain ⟨rfl, rfl⟩ := List.cons.inj heq
      exact ⟨rfl, rfl, rfl⟩

theorem Token.ne_nil (h : Token item leaves) : item ≠ [] := by
  cases h with
  | head hhead _ => simp [hhead.ne_nil]
  | mark _ => exact List.cons_ne_nil _ _

theorem IntegerItem.token {value : ℤ} (h : IntegerItem value item) :
    Token item [.integer value] := by
  obtain ⟨n, ⟨hhead, rfl⟩ | ⟨hhead, rfl⟩⟩ := h
  · simpa [leavesOf] using @Token.head _ _ _ [] hhead rfl
  · simpa [leavesOf] using @Token.head _ _ _ [] hhead rfl

theorem TextItem.token {text : List UInt8} (h : TextItem profile text item) :
    Token item [.text text] := by
  obtain ⟨head, hhead, rfl⟩ := h
  exact .head hhead.1 rfl

theorem Framing.Opens.token {framing : Framing} {major count : ℕ} {head : List UInt8}
    (h : framing.Opens profile major count head) (hmajor : major = 4 ∨ major = 5) :
    Token head [] := by
  cases framing with
  | definite =>
    have htoken := @Token.head _ _ _ [] h.1 (by rcases hmajor with rfl | rfl <;> rfl)
    rcases hmajor with rfl | rfl <;> simpa [leavesOf] using htoken
  | indefinite =>
    obtain rfl : head = [UInt8.ofNat (32 * major + 31)] := h
    exact .mark (by rw [toNat_indefinite (by omega)]; omega)

theorem token_breakCode : Token [breakCode] [] := .mark (by decide)

end Tokens

/-! ## Sequences of tokens -/

/-- The bytes are a sequence of tokens. -/
inductive Tokens : List UInt8 → List Leaf → Prop
  | nil : Tokens [] []
  | cons {item rest : List UInt8} {leaves others : List Leaf} (hitem : Token item leaves)
      (hrest : Tokens rest others) : Tokens (item ++ rest) (leaves ++ others)

section Sequences

variable {bytes bytes' : List UInt8} {leaves leaves' : List Leaf}

/-- A sequence of tokens is read in one way only. -/
theorem Tokens.unique (h : Tokens bytes leaves) (h' : Tokens bytes leaves') : leaves = leaves' := by
  induction h generalizing leaves' with
  | nil =>
    generalize hbytes : ([] : List UInt8) = bytes at h'
    cases h' with
    | nil => rfl
    | cons hitem hrest => exact absurd (List.append_eq_nil_iff.mp hbytes.symm).1 hitem.ne_nil
  | @cons item rest _ _ hitem hrest ih =>
    generalize hbytes : item ++ rest = bytes at h'
    cases h' with
    | nil => exact absurd (List.append_eq_nil_iff.mp hbytes).1 hitem.ne_nil
    | cons hitem' hrest' =>
      obtain ⟨rfl, rfl, rfl⟩ := hitem.unique hitem' hbytes
      rw [ih hrest']

theorem Token.tokens (h : Token bytes leaves) : Tokens bytes leaves := by
  simpa using Tokens.cons h .nil

theorem Tokens.append (h : Tokens bytes leaves) (h' : Tokens bytes' leaves') :
    Tokens (bytes ++ bytes') (leaves ++ leaves') := by
  induction h with
  | nil => exact h'
  | cons hitem _ ih =>
    rw [List.append_assoc, List.append_assoc]
    exact .cons hitem ih

theorem Framing.tokens_close (framing : Framing) : Tokens framing.close [] := by
  cases framing with
  | definite => exact .nil
  | indefinite => exact token_breakCode.tokens

/-- Items one after the other. -/
theorem tokens_flatten {α : Type*} {values : List α} {items : List (List UInt8)}
    {reads : α → List UInt8 → Prop} {tells : α → List Leaf → Prop}
    (htokens : ∀ value item, reads value item → ∃ leaves, Tokens item leaves ∧ tells value leaves)
    (h : List.Forall₂ reads values items) :
    ∃ leaves, Tokens items.flatten leaves.flatten ∧ List.Forall₂ tells values leaves := by
  induction h with
  | nil => exact ⟨[], .nil, .nil⟩
  | cons hitem _ ih =>
    obtain ⟨leaves, hleaves, htells⟩ := htokens _ _ hitem
    obtain ⟨others, hothers, hall⟩ := ih
    refine ⟨leaves :: others, ?_, .cons htells hall⟩
    rw [List.flatten_cons, List.flatten_cons]
    exact hleaves.append hothers

end Sequences

end CS.Cbor
