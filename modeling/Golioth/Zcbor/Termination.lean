/-
# Walks end

The loops of `zcbor_map_decode`, `settings_decode` and `params_decode` go on until the
container ends. How many elements it has, or whether the break byte ever comes, is for the
sender of the payload to say, so that nothing in the condition of a loop bounds it. What does
is the payload that is left: an iteration that does not return takes a byte of it at least,
on each of its branches, and entering the container has taken one as well.
-/
import Golioth.Zcbor.Bounds

namespace Golioth.Zcbor

variable {S σ : Type}

/-! ## What the library takes of the payload -/

/-- A function of the library gives nothing of the payload back, and takes a byte at least where it
succeeds. -/
def Consumed (lib : ZcborDecode S) (zsd : S) (ok : Bool) (zsd' : S) : Prop :=
  lib.payloadLeft zsd' + (if ok then 1 else 0) ≤ lib.payloadLeft zsd

/-- Every decoding function takes a byte of the payload where it succeeds, and none gives any
back; a container may be left without taking one. -/
structure ZcborDecode.Consumes (lib : ZcborDecode S) : Prop where
  newDecodeState : ∀ payload elemCount backups,
    lib.payloadLeft (lib.newDecodeState payload elemCount backups) = payload.length
  mapStartDecode : ∀ zsd, Consumed lib zsd (lib.mapStartDecode zsd).1 (lib.mapStartDecode zsd).2
  listStartDecode : ∀ zsd, Consumed lib zsd (lib.listStartDecode zsd).1 (lib.listStartDecode zsd).2
  mapEndDecode : ∀ zsd, lib.payloadLeft (lib.mapEndDecode zsd).2 ≤ lib.payloadLeft zsd
  listEndDecode : ∀ zsd, lib.payloadLeft (lib.listEndDecode zsd).2 ≤ lib.payloadLeft zsd
  listMapEndForceDecode : ∀ zsd,
    lib.payloadLeft (lib.listMapEndForceDecode zsd).2 ≤ lib.payloadLeft zsd
  tstrDecode : ∀ zsd, Consumed lib zsd (lib.tstrDecode zsd).1.isSome (lib.tstrDecode zsd).2
  uint32Decode : ∀ zsd, Consumed lib zsd (lib.uint32Decode zsd).1.isSome (lib.uint32Decode zsd).2
  int64Decode : ∀ zsd, Consumed lib zsd (lib.int64Decode zsd).1.isSome (lib.int64Decode zsd).2
  floatDecode : ∀ zsd, Consumed lib zsd (lib.floatDecode zsd).1.isSome (lib.floatDecode zsd).2
  boolDecode : ∀ zsd, Consumed lib zsd (lib.boolDecode zsd).1.isSome (lib.boolDecode zsd).2
  nilExpect : ∀ zsd, Consumed lib zsd (lib.nilExpect zsd).1 (lib.nilExpect zsd).2
  anySkip : ∀ zsd, Consumed lib zsd (lib.anySkip zsd).1 (lib.anySkip zsd).2

section Consumed

variable {lib : ZcborDecode S} {zsd zsd' : S} {ok : Bool}

theorem Consumed.le (h : Consumed lib zsd ok zsd') : lib.payloadLeft zsd' ≤ lib.payloadLeft zsd :=
  (Nat.le_add_right _ _).trans h

theorem Consumed.lt (h : Consumed lib zsd true zsd') : lib.payloadLeft zsd' < lib.payloadLeft zsd :=
  h

end Consumed

/-! ## Iterations -/

/-- What `zcbor_list_or_map_end` finds. -/
def isAtEnd (lib : ZcborDecode S) (zsd : S) : Bool :=
  if lib.indefiniteLengthArray zsd then lib.payloadByte zsd = breakByte else lib.elemCount zsd = 0

/-- Where the walk comes to a key or to an element and the container has not ended, the body of a
loop is entered. -/
def Event.begins (lib : ZcborDecode S) : Event S → Bool
  | .key zsd => !isAtEnd lib zsd
  | .element zsd => !isAtEnd lib zsd
  | .value _ => false
  | .read _ => false

/-- How many iterations of loops there are in a walk. -/
def iterations (lib : ZcborDecode S) (log : List (Event S)) : ℕ := log.countP (Event.begins lib)

/-- The iterations so far, and the bytes that are left for more. -/
def potential (lib : ZcborDecode S) (w : Cursor S σ) : ℕ :=
  iterations lib w.log + lib.payloadLeft w.zsd

/-- From one state of a walk to another, iterations are paid for with bytes of the payload, but for
`extra` ones. -/
structure Frugal (lib : ZcborDecode S) (extra : ℕ) (w w' : Cursor S σ) : Prop where
  left_le : lib.payloadLeft w'.zsd ≤ lib.payloadLeft w.zsd
  potential_le : potential lib w' ≤ potential lib w + extra

section Frugal

variable {lib : ZcborDecode S} {w w' w'' : Cursor S σ} {extra extra' : ℕ}

theorem Frugal.refl (w : Cursor S σ) : Frugal lib 0 w w := ⟨le_rfl, le_rfl⟩

theorem Frugal.trans (h : Frugal lib extra w w') (h' : Frugal lib extra' w' w'') :
    Frugal lib (extra + extra') w w'' where
  left_le := h'.left_le.trans h.left_le
  potential_le := by
    have hfirst := h.potential_le
    have hsecond := h'.potential_le
    omega

theorem Frugal.next (h : Frugal lib 0 w w') (h' : Frugal lib extra w' w'') :
    Frugal lib extra w w'' := by
  have hboth := h.trans h'
  rwa [Nat.zero_add] at hboth

theorem Frugal.mono (h : Frugal lib extra w w') (hle : extra ≤ extra') : Frugal lib extra' w w' :=
  ⟨h.left_le, h.potential_le.trans (Nat.add_le_add_left hle _)⟩

/-- Without a record of more. -/
theorem frugal_of_left_le (hlog : w'.log = w.log)
    (hle : lib.payloadLeft w'.zsd ≤ lib.payloadLeft w.zsd) : Frugal lib 0 w w' :=
  ⟨hle, by rw [potential, potential, hlog]; omega⟩

/-- What `zcbor_list_or_map_end` leaves: the state as it was, and nothing that is counted. -/
theorem zcborListOrMapEnd_walk (lib : ZcborDecode S) (w : Cursor S σ) :
    (zcborListOrMapEnd lib w).1 = isAtEnd lib w.zsd ∧ (zcborListOrMapEnd lib w).2.zsd = w.zsd ∧
      iterations lib (zcborListOrMapEnd lib w).2.log = iterations lib w.log := by
  unfold zcborListOrMapEnd isAtEnd
  split
  · refine ⟨rfl, rfl, ?_⟩
    simp [readHeader, Cursor.record, iterations, Event.begins]
  · exact ⟨rfl, rfl, rfl⟩

/-- The condition of a loop. Where the container has ended nothing is counted. Otherwise an
iteration begins, which the next byte that is taken pays for. -/
theorem loopCondition_cases {event : Event S} (hevent : event.begins lib = !isAtEnd lib w.zsd) :
    (∃ w₁, zcborListOrMapEnd lib (w.record event) = (true, w₁) ∧ Frugal lib 0 w w₁ ∧
      isAtEnd lib w₁.zsd = true) ∨
    ∃ w₁, zcborListOrMapEnd lib (w.record event) = (false, w₁) ∧ w₁.zsd = w.zsd ∧
      ∀ w₂ : Cursor S σ, iterations lib w₂.log = iterations lib w₁.log →
        lib.payloadLeft w₂.zsd ≤ lib.payloadLeft w.zsd →
          Frugal lib 1 w w₂ ∧
            (lib.payloadLeft w₂.zsd < lib.payloadLeft w.zsd → Frugal lib 0 w w₂) := by
  obtain ⟨hend, hzsd, hcount⟩ := zcborListOrMapEnd_walk lib (w.record event)
  generalize hresult : zcborListOrMapEnd lib (w.record event) = result at hend hzsd hcount
  obtain ⟨ended, w₁⟩ := result
  have hsame : w₁.zsd = w.zsd := hzsd
  have hat : ended = isAtEnd lib w.zsd := hend
  have hrecorded : iterations lib w₁.log =
      iterations lib w.log + if isAtEnd lib w.zsd then 0 else 1 := by
    rw [hcount]
    cases hcase : isAtEnd lib w.zsd <;> simp [iterations, Cursor.record, hevent, hcase]
  cases ended with
  | true =>
    rw [← hat, if_pos rfl, Nat.add_zero] at hrecorded
    refine .inl ⟨w₁, rfl, ⟨(congrArg lib.payloadLeft hsame).le, ?_⟩, ?_⟩
    · rw [potential, potential, hrecorded, hsame]
      exact le_rfl
    · rw [hsame, ← hat]
  | false =>
    rw [← hat, if_neg (by simp)] at hrecorded
    refine .inr ⟨w₁, rfl, hsame, fun w₂ hcount₂ hle => ⟨⟨hle, ?_⟩, fun hlt => ⟨hle, ?_⟩⟩⟩
    · rw [potential, potential, hcount₂, hrecorded]
      omega
    · rw [potential, potential, hcount₂, hrecorded]
      omega

end Frugal

/-! ## Maps -/

/-- A function that walks through some of the payload: the iterations of its loops are paid for,
and it returns as soon as it is given fuel for the payload that is left. -/
structure Walks (lib : ZcborDecode S) (fuel : ℕ) (run : Cursor S σ → Walked S σ) : Prop where
  frugal : ∀ w, Frugal lib 0 w (run w).2
  returns : ∀ w, lib.payloadLeft w.zsd ≤ fuel → (run w).1 ≠ none

/-- A loop is left where the container ends, and `after` follows; or the function returns an
error. -/
def Exits (lib : ZcborDecode S) (after : Cursor S σ → Walked S σ) (result : Walked S σ) : Prop :=
  (∃ w, isAtEnd lib w.zsd = true ∧ result = after w) ∨ ∃ err w, err ≠ 0 ∧ result = (some err, w)

theorem Exits.returns {lib : ZcborDecode S} {after : Cursor S σ → Walked S σ}
    {result : Walked S σ} (h : Exits lib after result) (hafter : ∀ w, (after w).1 ≠ none) :
    result.1 ≠ none := by
  rcases h with ⟨w, -, rfl⟩ | ⟨err, w, -, rfl⟩
  · exact hafter w
  · simp

section Maps

variable {lib : ZcborDecode S} {entries : List (ZcborMapEntry S σ)} {fuel : ℕ}
  {key : ZcborMapKey} {w : Cursor S σ}

theorem walks_zcborMapInt64Decode (hlib : lib.Consumes) (assign : ℤ → σ → σ) :
    Walks lib fuel (zcborMapInt64Decode lib assign) where
  frugal w := by
    have htaken := (hlib.int64Decode w.zsd).le
    unfold zcborMapInt64Decode
    split
    · next heq => exact frugal_of_left_le rfl (by rwa [heq] at htaken)
    · next heq => exact frugal_of_left_le rfl (by rwa [heq] at htaken)
  returns w _ := by
    unfold zcborMapInt64Decode
    split <;> simp

theorem walks_zcborMapTstrDecode (hlib : lib.Consumes) (assign : ZcborString → σ → σ) :
    Walks lib fuel (zcborMapTstrDecode lib assign) where
  frugal w := by
    have htaken := (hlib.tstrDecode w.zsd).le
    unfold zcborMapTstrDecode
    split
    · next heq => exact frugal_of_left_le rfl (by rwa [heq] at htaken)
    · next heq => exact frugal_of_left_le rfl (by rwa [heq] at htaken)
  returns w _ := by
    unfold zcborMapTstrDecode
    split <;> simp

/-- A key takes a byte, or the function returns. -/
theorem zcborMapKeyDecode_walk (hlib : lib.Consumes) (key : ZcborMapKey) (w : Cursor S σ) :
    iterations lib (zcborMapKeyDecode lib w key).2.2.log = iterations lib w.log ∧
      lib.payloadLeft (zcborMapKeyDecode lib w key).2.2.zsd ≤ lib.payloadLeft w.zsd ∧
      ((zcborMapKeyDecode lib w key).1 = 0 →
        lib.payloadLeft (zcborMapKeyDecode lib w key).2.2.zsd < lib.payloadLeft w.zsd) := by
  have hlog : iterations lib (zcborMapKeyDecode lib w key).2.2.log = iterations lib w.log := by
    rw [log_zcborMapKeyDecode]
    simp [iterations, Event.begins]
  have hbadmsg : -Errno.ebadmsg ≠ 0 := by decide
  refine ⟨hlog, ?_⟩
  unfold zcborMapKeyDecode
  dsimp only [readHeader, Cursor.record]
  split
  · have htaken := hlib.tstrDecode w.zsd
    split
    · next heq =>
      rw [heq] at htaken
      exact ⟨htaken.le, fun _ => htaken.lt⟩
    · next heq =>
      rw [heq] at htaken
      exact ⟨htaken.le, fun hzero => absurd hzero hbadmsg⟩
  · have htaken := hlib.uint32Decode w.zsd
    split
    · next heq =>
      rw [heq] at htaken
      exact ⟨htaken.le, fun _ => htaken.lt⟩
    · next heq =>
      rw [heq] at htaken
      exact ⟨htaken.le, fun hzero => absurd hzero hbadmsg⟩
  · exact ⟨le_rfl, fun hzero => absurd hzero hbadmsg⟩

/-- What an iteration of the loop of `zcbor_map_decode` makes of a state. -/
def Iteration.Progress (lib : ZcborDecode S) (fuel : ℕ) (w : Cursor S σ) :
    Iteration S σ → Prop
  | .atEnd w' => Frugal lib 0 w w' ∧ isAtEnd lib w'.zsd = true
  | .returned err _ w' => Frugal lib 1 w w' ∧ err ≠ 0
  | .running _ w' => Frugal lib 0 w w' ∧ fuel < lib.payloadLeft w.zsd
  | .passed _ w' => Frugal lib 0 w w' ∧ lib.payloadLeft w'.zsd < lib.payloadLeft w.zsd

/-- The value of a key is decoded or skipped. -/
theorem progress_decodeValue (hlib : lib.Consumes)
    (hentries : ∀ entry ∈ entries, Walks lib fuel entry.decode) (key : ZcborMapKey)
    (w : Cursor S σ) :
    Frugal lib 0 w (decodeValue lib entries key w).cursor ∧
      (∀ w', decodeValue lib entries key w ≠ .atEnd w') ∧
      (∀ err visits w', decodeValue lib entries key w = .returned err visits w' → err ≠ 0) ∧
      ∀ visit w', decodeValue lib entries key w = .running visit w' →
        fuel < lib.payloadLeft w.zsd := by
  unfold decodeValue
  dsimp only
  split
  · next entry hselected =>
    have hmem : entry ∈ entries := by
      obtain ⟨i, -, hget⟩ := Option.bind_eq_some_iff.mp hselected
      exact List.mem_of_getElem? hget
    have hfrugal := (hentries entry hmem).frugal w
    have hreturns := (hentries entry hmem).returns w
    split
    · next w' heq =>
      rw [heq] at hfrugal
      exact ⟨hfrugal, by simp, by simp, by simp⟩
    · next err w' hne heq =>
      rw [heq] at hfrugal
      refine ⟨hfrugal, by simp, ?_, by simp⟩
      rintro err' visits w'' hreturned rfl
      obtain ⟨rfl, -, -⟩ := Iteration.returned.inj hreturned
      exact hne rfl
    · next w' heq =>
      rw [heq] at hfrugal hreturns
      refine ⟨hfrugal, by simp, by simp, fun _ _ _ => ?_⟩
      by_contra hle
      exact hreturns (not_lt.mp hle) rfl
  · have htaken := (hlib.anySkip w.zsd).le
    split
    · next heq =>
      rw [heq] at htaken
      exact ⟨frugal_of_left_le rfl htaken, by simp, by simp, by simp⟩
    · next heq =>
      rw [heq] at htaken
      refine ⟨frugal_of_left_le rfl htaken, by simp, ?_, by simp⟩
      rintro err' visits w'' hreturned rfl
      have hbadmsg : -Errno.ebadmsg ≠ 0 := by decide
      exact hbadmsg (Iteration.returned.inj hreturned).1

/-- **Step.** An iteration that does not end the loop takes a byte. -/
theorem progress_decodeNext (hlib : lib.Consumes)
    (hentries : ∀ entry ∈ entries, Walks lib fuel entry.decode) (key : ZcborMapKey)
    (w : Cursor S σ) : (decodeNext lib entries key w).Progress lib fuel w := by
  rcases @loopCondition_cases S σ lib w (.key w.zsd) rfl with
    ⟨w₁, heq, hfrugal, hat⟩ | ⟨w₁, heq, hzsd, hpays⟩
  · rw [decodeNext, heq]
    exact ⟨hfrugal, hat⟩
  · -- the iteration has begun, and a key pays for it
    obtain ⟨hlog, hleft, htaken⟩ := zcborMapKeyDecode_walk hlib key w₁
    rw [hzsd] at hleft htaken
    obtain ⟨hbegun, hpaid⟩ := hpays _ hlog hleft
    rw [decodeNext, heq]
    dsimp only
    split
    · next key' w₂ hkey =>
      rw [hkey] at hpaid htaken
      have hless : lib.payloadLeft w₂.zsd < lib.payloadLeft w.zsd := htaken rfl
      obtain ⟨hvalue, hnotEnd, hreturned, hrunning⟩ := progress_decodeValue hlib hentries key' w₂
      have hwhole := (hpaid hless).trans hvalue
      cases hiteration : decodeValue lib entries key' w₂ with
      | atEnd w' => exact absurd hiteration (hnotEnd w')
      | returned err visits w' =>
        rw [hiteration] at hwhole
        exact ⟨hwhole.mono (Nat.zero_le _), hreturned err visits w' hiteration⟩
      | running visit w' =>
        rw [hiteration] at hwhole
        exact ⟨hwhole, (hrunning visit w' hiteration).trans hless⟩
      | passed visit w' =>
        rw [hiteration] at hwhole hvalue
        exact ⟨hwhole, hvalue.left_le.trans_lt hless⟩
    · next err _ w₂ hne hkey =>
      rw [hkey] at hbegun
      exact ⟨hbegun, hne⟩

/-- How the loop of `zcbor_map_decode` ends: it has decoded as many entries as the table has, or
the map has ended, or the function returns an error. -/
def LoopEnd.Exits (lib : ZcborDecode S) (numEntries : ℕ) (w : Cursor S σ) : LoopEnd → Prop
  | .running => False
  | .returned err => err ≠ 0
  | .finished numDecoded => numEntries ≤ numDecoded ∨ isAtEnd lib w.zsd = true

/-- **Run.** The loop of `zcbor_map_decode` ends. -/
theorem decodeEntries_walk (hlib : lib.Consumes)
    (hentries : ∀ entry ∈ entries, Walks lib fuel entry.decode) {steps : ℕ} (key : ZcborMapKey)
    (numDecoded : ℕ) (w : Cursor S σ) :
    Frugal lib 1 w (decodeEntries lib entries steps key numDecoded w).2.2 ∧
      (lib.payloadLeft w.zsd < steps → lib.payloadLeft w.zsd ≤ fuel →
        (decodeEntries lib entries steps key numDecoded w).1.Exits lib entries.length
          (decodeEntries lib entries steps key numDecoded w).2.2) := by
  induction steps generalizing key numDecoded w with
  | zero => exact ⟨(Frugal.refl w).mono (Nat.zero_le _), fun hlt => absurd hlt (Nat.not_lt_zero _)⟩
  | succ steps ih =>
    have hnext := progress_decodeNext hlib hentries key w
    rw [decodeEntries]
    split
    · cases hiteration : decodeNext lib entries key w with
      | atEnd w' =>
        rw [hiteration] at hnext
        exact ⟨hnext.1.mono (Nat.zero_le _), fun _ _ => .inr hnext.2⟩
      | returned err visits w' =>
        rw [hiteration] at hnext
        exact ⟨hnext.1, fun _ _ => hnext.2⟩
      | running visit w' =>
        rw [hiteration] at hnext
        exact ⟨hnext.1.mono (Nat.zero_le _), fun _ hle => absurd hnext.2 (not_lt.mpr hle)⟩
      | passed visit w' =>
        rw [hiteration] at hnext
        obtain ⟨hfrugal, hless⟩ := hnext
        obtain ⟨hrest, hexits⟩ := ih visit.key (visit.count numDecoded) w'
        refine ⟨hfrugal.next hrest, fun hlt hle => ?_⟩
        exact hexits (by omega) (by omega)
    · next hfull =>
      exact ⟨(Frugal.refl w).mono (Nat.zero_le _), fun _ _ => .inl (not_lt.mp hfull)⟩

theorem frugal_okOrReturn {err : ℤ} {result : Bool × S} {next : Cursor S σ → Walked S σ}
    (hle : lib.payloadLeft result.2 ≤ lib.payloadLeft w.zsd)
    (hnext : ∀ w, Frugal lib 0 w (next w).2) : Frugal lib 0 w (okOrReturn err w result next).2 := by
  have hfirst : Frugal lib 0 w { w with zsd := result.2 } := frugal_of_left_le rfl hle
  rw [okOrReturn]
  split
  · exact hfirst.trans (hnext _)
  · exact hfirst

theorem frugal_afterLoop (hlib : lib.Consumes) (numEntries : ℕ) (w : Cursor S σ)
    (loopEnd : LoopEnd) : Frugal lib 0 w (afterLoop lib numEntries w loopEnd).2 := by
  have hend (err : ℤ) : Frugal lib 0 w (mapEndDecode lib err w).2 :=
    frugal_okOrReturn (hlib.listMapEndForceDecode w.zsd) Frugal.refl
  unfold afterLoop
  split
  · exact .refl w
  · exact .refl w
  · split
    · exact hend _
    · split
      · exact .refl w
      · exact hend _

theorem afterLoop_returns {numEntries : ℕ} {w : Cursor S σ} {loopEnd : LoopEnd}
    (hexits : loopEnd.Exits lib numEntries w) : (afterLoop lib numEntries w loopEnd).1 ≠ none := by
  have hend (err : ℤ) : (mapEndDecode lib err w).1 ≠ none := by
    rw [mapEndDecode, okOrReturn]
    split <;> simp
  cases loopEnd with
  | running => exact hexits.elim
  | returned err => simp [afterLoop]
  | finished numDecoded =>
    rw [afterLoop]
    split
    · exact hend _
    · split
      · simp
      · exact hend _

/-- Entering a container pays for the iteration that fails. -/
theorem frugal_entered {u w' : Cursor S σ} (h : Frugal lib 1 u w')
    (hentered : Consumed lib w.zsd true u.zsd) (hlog : u.log = w.log) : Frugal lib 0 w w' := by
  refine ⟨h.left_le.trans hentered.le, ?_⟩
  have hpotential := h.potential_le
  have hless := hentered.lt
  rw [potential, potential, hlog] at hpotential
  rw [potential, potential]
  omega

/-- **`zcbor_map_decode` ends** if the decoders of its table do. -/
theorem walks_zcborMapDecode (hlib : lib.Consumes)
    (hentries : ∀ entry ∈ entries, Walks lib fuel entry.decode) :
    Walks lib fuel (zcborMapDecode lib fuel entries) where
  frugal w := by
    have hstart := hlib.mapStartDecode w.zsd
    rw [zcborMapDecode, zcborMapDecodeVisits]
    split
    · next zsd heq =>
      rw [heq] at hstart
      exact frugal_of_left_le rfl hstart.le
    · next zsd heq =>
      rw [heq] at hstart
      obtain ⟨hloop, -⟩ := @decodeEntries_walk S σ lib entries fuel hlib hentries fuel
        (lib.unassignedKey w.zsd) 0 { w with zsd := zsd }
      exact (frugal_entered hloop hstart rfl).trans (frugal_afterLoop hlib _ _ _)
  returns w hle := by
    have hstart := hlib.mapStartDecode w.zsd
    rw [zcborMapDecode, zcborMapDecodeVisits]
    split
    · simp
    · next zsd heq =>
      rw [heq] at hstart
      have hless : lib.payloadLeft zsd < lib.payloadLeft w.zsd := hstart.lt
      obtain ⟨-, hexits⟩ := @decodeEntries_walk S σ lib entries fuel hlib hentries fuel
        (lib.unassignedKey w.zsd) 0 { w with zsd := zsd }
      exact afterLoop_returns (hexits (hless.trans_le hle) (hless.le.trans hle))

end Maps

end Golioth.Zcbor

/-! ## Requests -/

namespace Golioth.Rpc

open Golioth.Zcbor

variable {S σ : Type} {lib : ZcborDecode S} {fuel : ℕ} {w : Cursor S σ}

/-- What follows the loop of `params_decode`. -/
def afterParams (lib : ZcborDecode S) (w : Cursor S σ) : Walked S σ :=
  okOrReturn (-Errno.ebadmsg) w (lib.listEndDecode w.zsd) fun w => (some 0, w)

/-- **Run.** The loop of `params_decode` ends. -/
theorem skipParams_walk (hlib : lib.Consumes) (fuel : ℕ) (w : Cursor S σ) :
    Frugal lib 1 w (skipParams lib fuel w).2 ∧
      (lib.payloadLeft w.zsd < fuel → Exits lib (afterParams lib) (skipParams lib fuel w)) := by
  induction fuel generalizing w with
  | zero => exact ⟨(Frugal.refl w).mono (Nat.zero_le _), fun hlt => absurd hlt (Nat.not_lt_zero _)⟩
  | succ fuel ih =>
    rcases @loopCondition_cases S σ lib w (.element w.zsd) rfl with
      ⟨w₁, heq, hfrugal, hat⟩ | ⟨w₁, heq, hzsd, hpays⟩
    · rw [skipParams, heq]
      refine ⟨?_, fun _ => .inl ⟨w₁, hat, rfl⟩⟩
      exact (hfrugal.trans (frugal_okOrReturn (hlib.listEndDecode w₁.zsd) Frugal.refl)).mono
        (Nat.zero_le _)
    · have hskip := hlib.anySkip w₁.zsd
      have hleft := hskip.le
      rw [hzsd] at hleft
      obtain ⟨hbegun, hpaid⟩ := hpays { w₁ with zsd := (lib.anySkip w₁.zsd).2 } rfl
        (by dsimp only; rw [hzsd]; exact hleft)
      rw [skipParams, heq]
      dsimp only
      rw [okOrReturn]
      split
      · next hok =>
        rw [hok] at hskip
        -- the element that was skipped pays for the iteration
        have hless : lib.payloadLeft (lib.anySkip w₁.zsd).2 < lib.payloadLeft w.zsd := by
          rw [← hzsd]
          exact hskip.lt
        obtain ⟨hrest, hexits⟩ := ih { w₁ with zsd := (lib.anySkip w₁.zsd).2 }
        refine ⟨(hpaid hless).next hrest, fun hlt => hexits ?_⟩
        exact hless.trans_le (Nat.lt_succ_iff.mp hlt)
      · exact ⟨hbegun, fun _ => .inr ⟨_, _, by decide, rfl⟩⟩

/-- **`params_decode` ends.** -/
theorem walks_paramsDecode (hlib : lib.Consumes) (assign : S → σ → σ) :
    Walks lib fuel (paramsDecode lib fuel assign) where
  frugal w := by
    have hstart := hlib.listStartDecode w.zsd
    rw [paramsDecode, okOrReturn]
    split
    · next hok =>
      rw [hok] at hstart
      exact frugal_entered (skipParams_walk hlib fuel _).1 hstart rfl
    · exact frugal_of_left_le rfl hstart.le
  returns w hle := by
    have hstart := hlib.listStartDecode w.zsd
    rw [paramsDecode, okOrReturn]
    split
    · next hok =>
      rw [hok] at hstart
      refine ((skipParams_walk hlib fuel _).2 (hstart.lt.trans_le hle)).returns fun w => ?_
      rw [afterParams, okOrReturn]
      split <;> simp
    · simp

end Golioth.Rpc

/-! ## Settings -/

namespace Golioth.Settings

open Golioth.Zcbor

variable {S E α : Type} {lib : ZcborDecode S} {enc : ZcborEncode E} {cb : SettingsCb α}
  {fuel : ℕ}

/-- The value of a setting is decoded or not, and nothing is given back. -/
theorem settingsValueDecode_left_le (hlib : lib.Consumes) (header : UInt8) (zsd : S) :
    lib.payloadLeft (settingsValueDecode lib header zsd).2 ≤ lib.payloadLeft zsd := by
  unfold settingsValueDecode
  split
  · have htaken := (hlib.tstrDecode zsd).le
    split <;> (next heq => rwa [heq] at htaken)
  · have htaken := (hlib.int64Decode zsd).le
    split <;> (next heq => rwa [heq] at htaken)
  · have htaken := (hlib.int64Decode zsd).le
    split <;> (next heq => rwa [heq] at htaken)
  · have hfloat := (hlib.floatDecode zsd).le
    split
    · next heq => rwa [heq] at hfloat
    · next zsd' heq =>
      rw [heq] at hfloat
      have hbool := (hlib.boolDecode zsd').le
      split
      · next heq' =>
        rw [heq'] at hbool
        exact hbool.trans hfloat
      · next heq' =>
        rw [heq'] at hbool
        exact hbool.trans hfloat
  · exact le_rfl

theorem iterations_settingDecode (label : List UInt8) (w : Cursor S (SettingsVars E α)) :
    iterations lib (settingDecode lib enc cb label w).2.log = iterations lib w.log := by
  have hquiet : iterations lib ((w.record (.value w.zsd)).record (.read w.zsd)).log =
      iterations lib w.log := by
    simp [iterations, Cursor.record, Event.begins]
  unfold settingDecode
  dsimp only [readHeader]
  split
  · exact hquiet
  · rw [okOrReturn]
    split <;> exact hquiet

theorem settingDecode_left_le (hlib : lib.Consumes) (label : List UInt8)
    (w : Cursor S (SettingsVars E α)) :
    lib.payloadLeft (settingDecode lib enc cb label w).2.zsd ≤ lib.payloadLeft w.zsd := by
  have hvalue := settingsValueDecode_left_le hlib (lib.payloadByte w.zsd) w.zsd
  unfold settingDecode
  dsimp only [readHeader, Cursor.record]
  split
  · next heq => rwa [heq] at hvalue
  · next zsd heq =>
    rw [heq] at hvalue
    have hskip := (hlib.anySkip zsd).le.trans hvalue
    rw [okOrReturn]
    split <;> exact hskip

/-- After a setting the loop goes on or the function returns an error. -/
theorem settingDecode_returns (label : List UInt8) (w : Cursor S (SettingsVars E α)) :
    (settingDecode lib enc cb label w).1 = some 0 ∨
      (settingDecode lib enc cb label w).1 = some (-Errno.ebadmsg) := by
  unfold settingDecode
  dsimp only
  split
  · exact .inl rfl
  · rw [okOrReturn]
    split
    · exact .inl rfl
    · exact .inr rfl

/-- What follows the loop of `settings_decode`. -/
def afterSettings (lib : ZcborDecode S) (w : Cursor S (SettingsVars E α)) :
    Walked S (SettingsVars E α) :=
  okOrReturn (-Errno.ebadmsg) w (lib.mapEndDecode w.zsd) fun w =>
    (some 0, { w with out := { w.out with settings := true } })

theorem frugal_afterSettings (hlib : lib.Consumes) (w : Cursor S (SettingsVars E α)) :
    Frugal lib 0 w (afterSettings lib w).2 :=
  frugal_okOrReturn (hlib.mapEndDecode w.zsd) fun _ => frugal_of_left_le rfl le_rfl

/-- **Run.** The loop of `settings_decode` ends. -/
theorem decodeSettings_walk (hlib : lib.Consumes) (fuel : ℕ) (w : Cursor S (SettingsVars E α)) :
    Frugal lib 1 w (decodeSettings lib enc cb fuel w).2 ∧
      (lib.payloadLeft w.zsd < fuel →
        Exits lib (afterSettings lib) (decodeSettings lib enc cb fuel w)) := by
  induction fuel generalizing w with
  | zero => exact ⟨(Frugal.refl w).mono (Nat.zero_le _), fun hlt => absurd hlt (Nat.not_lt_zero _)⟩
  | succ fuel ih =>
    rcases @loopCondition_cases S (SettingsVars E α) lib w (.element w.zsd) rfl with
      ⟨w₁, heq, hfrugal, hat⟩ | ⟨w₁, heq, hzsd, hpays⟩
    · rw [decodeSettings, heq]
      refine ⟨?_, fun _ => .inl ⟨w₁, hat, rfl⟩⟩
      exact (hfrugal.trans (frugal_afterSettings hlib w₁)).mono (Nat.zero_le _)
    · have hlabel := hlib.tstrDecode w₁.zsd
      rw [hzsd] at hlabel
      rw [decodeSettings, heq]
      dsimp only
      rw [hzsd]
      split
      · next zsd hdecoded =>
        rw [hdecoded] at hlabel
        exact ⟨(hpays { w₁ with zsd := zsd } rfl hlabel.le).1,
          fun _ => .inr ⟨_, _, by decide, rfl⟩⟩
      · next label zsd hdecoded =>
        rw [hdecoded] at hlabel
        set u : Cursor S (SettingsVars E α) := { w₁ with zsd := zsd } with hu
        -- the label of the setting pays for the iteration
        have hless : lib.payloadLeft
            (settingDecode lib enc cb (lib.text zsd label) u).2.zsd < lib.payloadLeft w.zsd :=
          (settingDecode_left_le hlib _ u).trans_lt hlabel.lt
        have hpaid := (hpays (settingDecode lib enc cb (lib.text zsd label) u).2
          (iterations_settingDecode _ u) hless.le).2 hless
        have hreturns := @settingDecode_returns S E α lib enc cb (lib.text zsd label) u
        generalize settingDecode lib enc cb (lib.text zsd label) u = result at hless hpaid hreturns
        obtain ⟨ret, w₂⟩ := result
        rcases hreturns with hret | hret
        · rw [show ret = some 0 from hret, orReturn]
          obtain ⟨hrest, hexits⟩ := ih w₂
          refine ⟨hpaid.next hrest, fun hlt => hexits ?_⟩
          exact hless.trans_le (Nat.lt_succ_iff.mp hlt)
        · rw [show ret = some (-Errno.ebadmsg) from hret]
          exact ⟨hpaid.mono (Nat.zero_le _), fun _ => .inr ⟨_, _, by decide, rfl⟩⟩

/-- **`settings_decode` ends.** -/
theorem walks_settingsDecode (hlib : lib.Consumes) :
    Walks lib fuel (settingsDecode lib enc cb fuel) where
  frugal w := by
    have hnil := hlib.nilExpect w.zsd
    unfold settingsDecode
    split
    · next heq =>
      rw [heq] at hnil
      exact frugal_of_left_le rfl hnil.le
    · next zsd heq =>
      rw [heq] at hnil
      have hstart := hlib.mapStartDecode zsd
      have hfirst : Frugal lib 0 w { w with zsd := zsd } := frugal_of_left_le rfl hnil.le
      refine hfirst.next ?_
      rw [okOrReturn]
      split
      · next hok =>
        rw [hok] at hstart
        exact frugal_entered (decodeSettings_walk hlib fuel _).1 hstart rfl
      · exact frugal_of_left_le rfl hstart.le
  returns w hle := by
    have hnil := hlib.nilExpect w.zsd
    unfold settingsDecode
    split
    · simp
    · next zsd heq =>
      rw [heq] at hnil
      have hstart := hlib.mapStartDecode zsd
      rw [okOrReturn]
      split
      · next hok =>
        rw [hok] at hstart
        have hless := hstart.lt.trans_le (hnil.le.trans hle)
        refine ((decodeSettings_walk hlib fuel _).2 hless).returns fun w => ?_
        rw [afterSettings, okOrReturn]
        split <;> simp
      · simp

end Golioth.Settings

/-! ## Manifests -/

namespace Golioth.Fw

open Golioth.Zcbor

variable {S : Type} {lib : ZcborDecode S} {fuel : ℕ}

theorem walks_componentEntryDecodeValue (hlib : lib.Consumes)
    (get : FwVars S → ComponentTstrValue)
    (set : ComponentTstrValue → FwVars S → FwVars S) :
    Walks lib fuel (componentEntryDecodeValue lib get set) where
  frugal w := by
    have htaken := (hlib.tstrDecode w.zsd).le
    unfold componentEntryDecodeValue
    split
    · next heq => exact frugal_of_left_le rfl (by rwa [heq] at htaken)
    · next heq =>
      rw [heq] at htaken
      split
      · exact frugal_of_left_le rfl htaken
      · exact frugal_of_left_le rfl htaken
  returns w _ := by
    unfold componentEntryDecodeValue
    split
    · simp
    · split <;> simp

theorem walks_componentEntries (hlib : lib.Consumes) :
    ∀ entry ∈ componentEntries lib, Walks lib fuel entry.decode := by
  intro entry hmem
  simp only [componentEntries, List.mem_cons, List.not_mem_nil, or_false] at hmem
  rcases hmem with rfl | rfl
  · dsimp only
    exact walks_componentEntryDecodeValue hlib FwVars.version _
  · dsimp only
    exact walks_componentEntryDecodeValue hlib FwVars.uri _

theorem walks_componentDecode (hlib : lib.Consumes) : Walks lib fuel (componentDecode lib fuel) := by
  have hmap : Walks lib fuel (zcborMapDecode lib fuel (componentEntries lib)) :=
    walks_zcborMapDecode hlib (walks_componentEntries hlib)
  refine ⟨fun w => ?_, hmap.returns⟩
  have hlast : Frugal lib 0 (zcborMapDecode lib fuel (componentEntries lib) w).2
      (componentDecode lib fuel w).2 := frugal_of_left_le rfl le_rfl
  exact (hmap.frugal w).trans hlast

/-- **`components_decode` ends**, with the loop inside. -/
theorem walks_componentsDecode (hlib : lib.Consumes) :
    Walks lib fuel (componentsDecode lib fuel) where
  frugal w := by
    refine frugal_okOrReturn (hlib.listStartDecode w.zsd).le fun w => ?_
    have hcomponent := (@walks_componentDecode S lib fuel hlib).frugal w
    unfold orReturn
    split
    · next w' heq =>
      rw [heq] at hcomponent
      exact hcomponent.trans (frugal_okOrReturn (hlib.listEndDecode w'.zsd) Frugal.refl)
    · exact hcomponent
  returns w hle := by
    have hstart := (hlib.listStartDecode w.zsd).le
    rw [componentsDecode, okOrReturn]
    split
    · have hreturns := (@walks_componentDecode S lib fuel hlib).returns
        { w with zsd := (lib.listStartDecode w.zsd).2 } (hstart.trans hle)
      unfold orReturn
      split
      · dsimp only
        rw [okOrReturn]
        split <;> simp
      · exact hreturns
    · simp

end Golioth.Fw

/-! ## Whole payloads -/

namespace Golioth.Zcbor

variable {S σ E α : Type} {lib : ZcborDecode S} {fuel : ℕ}

/-- A walk returns, with so many iterations of loops at most. -/
def EndsWithin (lib : ZcborDecode S) (n : ℕ) (result : Walked S σ) : Prop :=
  (∃ err, result.1 = some err) ∧ iterations lib result.2.log ≤ n

/-- However the loop of `zcbor_map_decode` is entered with a table, it is left because all entries
have been decoded, or at the end of the map, or with an error. -/
def MapLoopExits (lib : ZcborDecode S) (fuel : ℕ) (entries : List (ZcborMapEntry S σ)) : Prop :=
  ∀ key numDecoded (w : Cursor S σ), lib.payloadLeft w.zsd < fuel →
    (decodeEntries lib entries fuel key numDecoded w).1.Exits lib entries.length
      (decodeEntries lib entries fuel key numDecoded w).2.2

theorem mapLoopExits (hlib : lib.Consumes) {entries : List (ZcborMapEntry S σ)}
    (hentries : ∀ entry ∈ entries, Walks lib fuel entry.decode) : MapLoopExits lib fuel entries :=
  fun key numDecoded w hlt => (decodeEntries_walk hlib hentries key numDecoded w).2 hlt hlt.le

theorem ends_zcborMapDecode (hlib : lib.Consumes) {entries : List (ZcborMapEntry S σ)}
    (hentries : ∀ entry ∈ entries, Walks lib fuel entry.decode) {payload : List UInt8}
    (hfuel : payload.length ≤ fuel) (elemCount backups : ℕ) (out : σ) :
    EndsWithin lib payload.length (zcborMapDecode lib fuel entries
      { zsd := lib.newDecodeState payload elemCount backups, out := out }) := by
  have hwalks := walks_zcborMapDecode hlib hentries
  have hleft := hlib.newDecodeState payload elemCount backups
  set w : Cursor S σ := { zsd := lib.newDecodeState payload elemCount backups, out := out } with hw
  have hstart : potential lib w = payload.length := (Nat.zero_add _).trans hleft
  constructor
  · exact Option.ne_none_iff_exists'.mp (hwalks.returns w (hleft.trans_le hfuel))
  · have hpaid := (hwalks.frugal w).potential_le
    rw [hstart, potential] at hpaid
    omega

theorem walks_rpcEntries (hlib : lib.Consumes) :
    ∀ entry ∈ Rpc.rpcEntries lib fuel, Walks lib fuel entry.decode := by
  intro entry hmem
  simp only [Rpc.rpcEntries, List.mem_cons, List.not_mem_nil, or_false] at hmem
  rcases hmem with rfl | rfl | rfl
  · dsimp only
    exact walks_zcborMapTstrDecode hlib _
  · dsimp only
    exact walks_zcborMapTstrDecode hlib _
  · dsimp only
    exact Rpc.walks_paramsDecode hlib _

theorem walks_settingsEntries (hlib : lib.Consumes) {enc : ZcborEncode E}
    {cb : Settings.SettingsCb α} :
    ∀ entry ∈ Settings.settingsEntries lib enc cb fuel, Walks lib fuel entry.decode := by
  intro entry hmem
  simp only [Settings.settingsEntries, List.mem_cons, List.not_mem_nil, or_false] at hmem
  rcases hmem with rfl | rfl
  · exact Settings.walks_settingsDecode hlib
  · dsimp only
    exact walks_zcborMapInt64Decode hlib _

theorem walks_manifestEntries (hlib : lib.Consumes) :
    ∀ entry ∈ Fw.manifestEntries lib fuel, Walks lib fuel entry.decode := by
  intro entry hmem
  simp only [Fw.manifestEntries, List.mem_cons, List.not_mem_nil, or_false] at hmem
  rcases hmem with rfl | rfl
  · dsimp only
    exact walks_zcborMapInt64Decode hlib _
  · exact Fw.walks_componentsDecode hlib

/-- **Walks end.** Whatever the payload of a request, of settings or of a manifest is, the walk
through it returns, and its loops have no more iterations together than the payload has bytes.
Each loop is left at the end of its container or with an error; the one of `zcbor_map_decode` is
also left as soon as all entries of its table have been decoded. -/
theorem walks_end (hlib : lib.Consumes) (enc : ZcborEncode E) (cb : Settings.SettingsCb α)
    (fuel : ℕ) :
    (∀ payload vars, payload.length ≤ fuel →
      EndsWithin lib payload.length (Rpc.decodeRpc lib fuel payload vars).2) ∧
    (∀ payload vars, payload.length ≤ fuel →
      EndsWithin lib payload.length (Settings.decodeSetting lib enc cb fuel payload vars).2) ∧
    (∀ payload vars, payload.length ≤ fuel →
      EndsWithin lib payload.length (Fw.goliothFwDesiredParse lib fuel payload vars)) ∧
    (MapLoopExits lib fuel (Rpc.rpcEntries lib fuel) ∧
      MapLoopExits lib fuel (Settings.settingsEntries lib enc cb fuel) ∧
      MapLoopExits lib fuel (Fw.manifestEntries lib fuel) ∧
      MapLoopExits lib fuel (Fw.componentEntries lib)) ∧
    (∀ w : Cursor S (Rpc.RpcVars S), lib.payloadLeft w.zsd < fuel →
      Exits lib (Rpc.afterParams lib) (Rpc.skipParams lib fuel w)) ∧
    ∀ w : Cursor S (Settings.SettingsVars E α), lib.payloadLeft w.zsd < fuel →
      Exits lib (Settings.afterSettings lib) (Settings.decodeSettings lib enc cb fuel w) := by
  refine ⟨fun payload vars hfuel => ?_, fun payload vars hfuel => ?_, fun payload vars hfuel => ?_,
    ⟨?_, ?_, ?_, ?_⟩, ?_, ?_⟩
  · exact ends_zcborMapDecode hlib (walks_rpcEntries hlib) hfuel 1 2 vars
  · exact ends_zcborMapDecode hlib (walks_settingsEntries hlib) hfuel 1 2 vars
  · exact ends_zcborMapDecode hlib (walks_manifestEntries hlib) hfuel 1 3 vars
  · exact mapLoopExits hlib (walks_rpcEntries hlib)
  · exact mapLoopExits hlib (walks_settingsEntries hlib)
  · exact mapLoopExits hlib (walks_manifestEntries hlib)
  · exact mapLoopExits hlib (Fw.walks_componentEntries hlib)
  · exact fun w => (Rpc.skipParams_walk hlib fuel w).2
  · exact fun w => (Settings.decodeSettings_walk hlib fuel w).2

/-! ## The decoder takes bytes -/

namespace Reference

/-- A state after some of the payload was taken. -/
def Took (s : State) (result : Option State) : Prop :=
  ∀ s', result = some s' → s'.payload.length < s.payload.length

theorem length_payload_advance (s : State) (n : ℕ) :
    (s.advance n).payload.length = s.payload.length - n := List.length_drop

theorem consumed_succeeds {s : State} {result : Option State} (h : Took s result) :
    Consumed library s (succeeds s result).1 (succeeds s result).2 := by
  cases result with
  | none => exact le_rfl
  | some s' => exact h s' rfl

theorem consumed_orKeep {β : Type} {s : State} {result : Option (β × State)}
    (h : Took s (result.map Prod.snd)) :
    Consumed library s (orKeep s result).1.isSome (orKeep s result).2 := by
  cases result with
  | none => exact le_rfl
  | some result => exact h result.2 rfl

theorem took_valueExtract (resultLen : ℕ) (s : State) :
    Took s ((valueExtract resultLen s).map Prod.snd) := by
  intro s' hs'
  unfold valueExtract at hs'
  split at hs'
  · cases hs'
  · next header rest hpayload =>
    have hpos : 0 < s.payload.length := by simp [hpayload]
    dsimp only at hs'
    split at hs'
    · cases hs'
    · split at hs'
      · obtain rfl := Option.some_inj.mp hs'
        have hlen := length_payload_advance s 1
        dsimp only
        omega
      · split at hs'
        · cases hs'
        · obtain rfl := Option.some_inj.mp hs'
          have hlen := length_payload_advance s (1 + additionalLen (additionalOf header))
          dsimp only
          omega

theorem took_valueOf (types : List MajorType) (resultLen : ℕ) (s : State) :
    ∀ type value s', valueOf types resultLen s = some (type, value, s') →
      s'.payload.length < s.payload.length := by
  intro type value s' hs'
  unfold valueOf at hs'
  split at hs'
  · cases hs'
  · split at hs'
    · obtain ⟨⟨value', s''⟩, hextract, hmade⟩ := Option.map_eq_some_iff.mp hs'
      obtain ⟨-, hrest⟩ := Prod.mk.inj hmade
      obtain ⟨-, rfl⟩ := Prod.mk.inj hrest
      exact took_valueExtract resultLen s s'' (by rw [hextract]; rfl)
    · cases hs'

theorem took_simpleValue (s : State) : ∀ header s', simpleValue s = some (header, s') →
    s'.payload.length < s.payload.length := by
  intro header s' hs'
  unfold simpleValue at hs'
  split at hs'
  · cases hs'
  · next first rest hpayload =>
    split at hs'
    · cases hs'
    · obtain ⟨-, rfl⟩ := Prod.mk.inj (Option.some_inj.mp hs')
      have hlen := length_payload_advance s 1
      have hpos : 0 < s.payload.length := by simp [hpayload]
      dsimp only
      omega

theorem took_startDecode (type : MajorType) (factor : ℕ) (s : State) :
    Consumed library s (startDecode type factor s).1 (startDecode type factor s).2 := by
  refine consumed_succeeds fun s' hs' => ?_
  split at hs'
  · cases hs'
  · next header rest hpayload =>
    split at hs'
    · cases hs'
    · split at hs'
      · obtain rfl := Option.some_inj.mp hs'
        have hlen := length_payload_advance s 1
        have hpos : 0 < s.payload.length := by simp [hpayload]
        dsimp only
        omega
      · obtain ⟨⟨value, s''⟩, hextract, rfl⟩ := Option.map_eq_some_iff.mp hs'
        exact took_valueExtract 4 s s'' (by rw [hextract]; rfl)

theorem length_payload_restore {s s' : State} (h : restore s = some s') :
    s'.payload.length = s.payload.length := by
  unfold restore at h
  split at h
  · cases h
  · obtain rfl := Option.some_inj.mp h
    rfl

theorem length_payload_endDecode_le (s : State) :
    (endDecode s).2.payload.length ≤ s.payload.length := by
  unfold endDecode
  split
  · split
    · cases hrestored : restore (s.advance 1) with
      | none => exact le_rfl
      | some s' =>
        have hlen := length_payload_restore hrestored
        rw [length_payload_advance] at hlen
        exact hlen.trans_le (Nat.sub_le _ _)
    · exact le_rfl
  · split
    · cases hrestored : restore s with
      | none => exact le_rfl
      | some s' => exact (length_payload_restore hrestored).le
    · exact le_rfl

theorem length_payload_skipTags {fuel : ℕ} {s s' : State} (h : skipTags fuel s = some s') :
    s'.payload.length ≤ s.payload.length := by
  induction fuel generalizing s with
  | zero => cases h
  | succ fuel ih =>
    rw [skipTags] at h
    split at h
    · next s₁ hvalue => exact (ih h).trans (took_valueOf _ _ s _ _ s₁ hvalue).le
    · split at h
      · split at h
        · cases h
        · obtain rfl := Option.some_inj.mp h
          exact le_rfl
      · cases h

/-- Skipping an element takes bytes, and skipping the elements of a container gives none back. -/
theorem length_payload_skip (fuel : ℕ) :
    (∀ s s', anySkip fuel s = some s' → s'.payload.length < s.payload.length) ∧
      ∀ s s', skipElements fuel s = some s' → s'.payload.length ≤ s.payload.length := by
  induction fuel with
  | zero =>
    constructor
    · intro s s' h
      rw [anySkip] at h
      cases h
    · intro s s' h
      rw [skipElements] at h
      cases h
  | succ fuel ih =>
    obtain ⟨hany, helements⟩ := ih
    constructor
    · intro s s' h
      rw [anySkip] at h
      obtain ⟨copy, htags, h⟩ := Option.bind_eq_some_iff.mp h
      have hcopy := length_payload_skipTags htags
      split at h
      · cases h
      · next header rest hpayload =>
        obtain ⟨copy', hskipped, rfl⟩ := Option.map_eq_some_iff.mp h
        have hpos : 0 < copy.payload.length := by simp [hpayload]
        refine lt_of_lt_of_le (?_ : copy'.payload.length < copy.payload.length) hcopy
        split at hskipped
        · have hle := helements _ _ hskipped
          have hlen := length_payload_advance copy 1
          dsimp only at hle
          omega
        · obtain ⟨⟨value, copy''⟩, hextract, hskipped⟩ := Option.bind_eq_some_iff.mp hskipped
          -- the header is consumed in any case, and a string or the elements after it
          have hless : copy''.payload.length < copy.payload.length :=
            took_valueExtract 8 copy copy'' (by rw [hextract]; rfl)
          have hbytes (h : (if copy''.payload.length < value then none
              else some (copy''.advance value)) = some copy') :
              copy'.payload.length ≤ copy''.payload.length := by
            split at h
            · cases h
            · obtain rfl := Option.some_inj.mp h
              exact (length_payload_advance copy'' value).trans_le (Nat.sub_le _ _)
          dsimp only at hskipped
          split at hskipped
          · exact (hbytes hskipped).trans_lt hless
          · exact (hbytes hskipped).trans_lt hless
          · exact (helements _ _ hskipped).trans_lt hless
          · exact (helements _ _ hskipped).trans_lt hless
          · obtain rfl := Option.some_inj.mp hskipped
            exact hless
    · intro s s' h
      rw [skipElements] at h
      -- an element is skipped, and then the rest of them
      have hmore (h : (anySkip fuel s).bind (skipElements fuel) = some s') :
          s'.payload.length ≤ s.payload.length := by
        obtain ⟨s₁, hskip, hrest⟩ := Option.bind_eq_some_iff.mp h
        exact (helements _ _ hrest).trans (hany _ _ hskip).le
      split at h
      · split at h
        · obtain rfl := Option.some_inj.mp h
          exact (length_payload_advance s 1).trans_le (Nat.sub_le _ _)
        · exact hmore h
      · split at h
        · obtain rfl := Option.some_inj.mp h
          exact le_rfl
        · exact hmore h

theorem consumes : library.Consumes where
  newDecodeState _ _ _ := rfl
  mapStartDecode := took_startDecode .map 2
  listStartDecode := took_startDecode .list 1
  mapEndDecode := length_payload_endDecode_le
  listEndDecode := length_payload_endDecode_le
  listMapEndForceDecode s := by
    change (succeeds s (restore s)).2.payload.length ≤ s.payload.length
    cases hrestored : restore s with
    | none => exact le_rfl
    | some s' => exact (length_payload_restore hrestored).le
  tstrDecode s := by
    refine consumed_orKeep fun s' hs' => ?_
    obtain ⟨⟨str, s₁⟩, hresult, rfl⟩ := Option.map_eq_some_iff.mp hs'
    obtain ⟨⟨type, len, s₂⟩, hvalue, hmade⟩ := Option.bind_eq_some_iff.mp hresult
    have hless := took_valueOf _ _ s _ _ s₂ hvalue
    dsimp only at hmade
    split at hmade
    · obtain ⟨-, rfl⟩ := Prod.mk.inj (Option.some_inj.mp hmade)
      exact ((length_payload_advance s₂ len).trans_le (Nat.sub_le _ _)).trans_lt hless
    · cases hmade
  uint32Decode s := by
    refine consumed_orKeep fun s' hs' => ?_
    obtain ⟨⟨value, s₁⟩, hresult, rfl⟩ := Option.map_eq_some_iff.mp hs'
    obtain ⟨⟨type, number, s₂⟩, hvalue, hmade⟩ := Option.map_eq_some_iff.mp hresult
    obtain ⟨-, rfl⟩ := Prod.mk.inj hmade
    exact took_valueOf _ _ s _ _ s₂ hvalue
  int64Decode s := by
    refine consumed_orKeep fun s' hs' => ?_
    obtain ⟨⟨value, s₁⟩, hresult, rfl⟩ := Option.map_eq_some_iff.mp hs'
    obtain ⟨⟨type, number, s₂⟩, hvalue, hmade⟩ := Option.bind_eq_some_iff.mp hresult
    dsimp only at hmade
    split at hmade
    · obtain ⟨-, rfl⟩ := Prod.mk.inj (Option.some_inj.mp hmade)
      exact took_valueOf _ _ s _ _ s₂ hvalue
    · cases hmade
  floatDecode s := by
    refine consumed_orKeep fun s' hs' => ?_
    obtain ⟨⟨value, s₁⟩, hresult, rfl⟩ := Option.map_eq_some_iff.mp hs'
    split at hresult
    · cases hresult
    · obtain ⟨⟨bits, s₂⟩, hvalue, hmade⟩ := Option.bind_eq_some_iff.mp hresult
      have hless : s₂.payload.length < s.payload.length :=
        took_valueExtract 8 s s₂ (by rw [hvalue]; rfl)
      dsimp only at hmade
      split_ifs at hmade <;> (obtain ⟨-, rfl⟩ := Prod.mk.inj (Option.some_inj.mp hmade); exact hless)
  boolDecode s := by
    refine consumed_orKeep fun s' hs' => ?_
    obtain ⟨⟨value, s₁⟩, hresult, rfl⟩ := Option.map_eq_some_iff.mp hs'
    obtain ⟨⟨header, s₂⟩, hvalue, hmade⟩ := Option.bind_eq_some_iff.mp hresult
    have hless := took_simpleValue s header s₂ hvalue
    dsimp only at hmade
    split_ifs at hmade <;> (obtain ⟨-, rfl⟩ := Prod.mk.inj (Option.some_inj.mp hmade); exact hless)
  nilExpect s := by
    refine consumed_succeeds fun s' hs' => ?_
    obtain ⟨⟨header, s₂⟩, hvalue, hmade⟩ := Option.bind_eq_some_iff.mp hs'
    have hless := took_simpleValue s header s₂ hvalue
    dsimp only at hmade
    split_ifs at hmade
    obtain rfl := Option.some_inj.mp hmade
    exact hless
  anySkip s := consumed_succeeds fun s' hs' => (length_payload_skip _).1 s s' hs'

end Reference

/-- `{"id": "a", "method": "b", "params": [], "x": 0}`. -/
def surplusRequest : List UInt8 :=
  [0xa4, 0x62, 0x69, 0x64, 0x61, 0x61, 0x66, 0x6d, 0x65, 0x74, 0x68, 0x6f, 0x64, 0x61, 0x62, 0x66,
    0x70, 0x61, 0x72, 0x61, 0x6d, 0x73, 0x80, 0x61, 0x78, 0x00]

theorem walks_end_surplusRequest :
    ∃ err, (Rpc.decodeRpc Reference.library 26 surplusRequest unassignedRpc).2.1 = some err ∧
      iterations Reference.library
        (Rpc.decodeRpc Reference.library 26 surplusRequest unassignedRpc).2.2.log ≤ 26 := by
  obtain ⟨hrpc, -⟩ := walks_end Reference.consumes Reference.encoder
    (fun _ _ (app : Unit) => (0, app)) 26
  obtain ⟨⟨err, hreturns⟩, hcount⟩ := hrpc surplusRequest unassignedRpc (by decide)
  exact ⟨err, hreturns, hcount⟩

/-- The loop for a request is left while there is an element left of the map, and without an
error. -/
theorem surplusRequest_not_exits :
    (Rpc.decodeRpc Reference.library 26 surplusRequest unassignedRpc).2.1 = some 0 ∧
      ∃ w : Cursor Reference.State (Rpc.RpcVars Reference.State),
        (decodeEntries Reference.library (Rpc.rpcEntries Reference.library 26) 26
            { type := .u32, word := 0, len := 0 } 0 w).1 = .finished 3 ∧
          isAtEnd Reference.library (decodeEntries Reference.library
            (Rpc.rpcEntries Reference.library 26) 26 { type := .u32, word := 0, len := 0 } 0
              w).2.2.zsd = false := by
  refine ⟨by decide, { zsd := (Reference.library.mapStartDecode
    (Reference.library.newDecodeState surplusRequest 1 2)).2, out := unassignedRpc }, ?_⟩
  decide

end Golioth.Zcbor
