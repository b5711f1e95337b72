import RenderAssets.Spirv.Cursor

/-!
# The instructions of a module as one list

A listing is read off the words in a single pass: the words of an instruction are
counted down before the next first word is looked at. It names no cursor. The
main statement is that stepping a cursor to its end yields the listing of the
words from the cursor on, and that the cursor then remembers a truncation exactly
when the listing has one.
-/

namespace RenderAssets.Spirv

/-- The instructions of a module in order, and whether they break off at words
that form no instruction. -/
structure Listing where
  instructions : List Instruction
  truncated : Bool
  deriving DecidableEq, Repr

namespace Listing

/-- The listing of the words that stand at an offset, when the first few of them
still belong to an instruction already listed. -/
def ofRest : (offset unread : Nat) → List UInt32 → Listing
  | _, _, [] => ⟨[], false⟩
  | offset, unread + 1, _ :: rest => ofRest (offset + 1) unread rest
  | offset, 0, first :: rest =>
    if 0 < declaredCount first ∧ declaredCount first ≤ rest.length + 1 then
      let later := ofRest (offset + 1) (declaredCount first - 1) rest
      ⟨⟨declaredOpcode first, offset, declaredCount first⟩ :: later.instructions, later.truncated⟩
    else
      ⟨[], true⟩

/-- The listing of a module: what follows its header. -/
def ofWords (words : List UInt32) : Listing :=
  ofRest (min headerWordCount words.length) 0 (words.drop (min headerWordCount words.length))

/-- Words that belong to a listed instruction can be dropped beforehand. -/
theorem ofRest_eq_drop (offset unread : Nat) (rest : List UInt32) :
    ofRest offset unread rest = ofRest (offset + unread) 0 (rest.drop unread) := by
  induction rest generalizing offset unread with
  | nil => cases unread <;> simp [ofRest]
  | cons first rest inductionHypothesis =>
    cases unread with
    | zero => simp
    | succ unread =>
      rw [ofRest, inductionHypothesis, List.drop_succ_cons]
      congr 1
      omega

end Listing

namespace Cursor

/-- The listing of the words from the cursor on. -/
def listing (cursor : Cursor) : Listing :=
  Listing.ofRest cursor.position 0 (cursor.words.drop cursor.position)

/-- The cursor after reading everything: at the end of the words, and truncated if
the listing is. -/
def finished (cursor : Cursor) : Cursor :=
  if cursor.listing.truncated then cursor.exhaust
  else { cursor with position := cursor.words.length }

/-- With nothing left to read, the listing is empty and sound. -/
theorem listing_of_end (cursor : Cursor) (atEnd : cursor.words.length ≤ cursor.position) :
    cursor.listing = ⟨[], false⟩ := by
  rw [listing, List.drop_eq_nil_of_le atEnd]
  rfl

/-- An admitted first word puts its instruction in front of the listing from the
cursor past it. -/
theorem listing_of_admits (cursor : Cursor) (first : UInt32)
    (present : cursor.words[cursor.position]? = some first) (admitted : cursor.Admits first) :
    cursor.listing =
      ⟨cursor.announced first :: (cursor.advance (cursor.announced first)).listing.instructions,
        (cursor.advance (cursor.announced first)).listing.truncated⟩ := by
  obtain ⟨inside, rfl⟩ := List.getElem?_eq_some_iff.mp present
  obtain ⟨positive, fits⟩ := admitted
  simp only [remaining] at fits
  rw [listing, List.drop_eq_getElem_cons inside, Listing.ofRest, if_pos, Listing.ofRest_eq_drop]
  · have skipped : cursor.position + 1 + (declaredCount cursor.words[cursor.position] - 1) =
        cursor.position + declaredCount cursor.words[cursor.position] := by omega
    simp only [List.drop_drop, skipped, announced, advance, listing]
  · refine ⟨positive, ?_⟩
    simp only [List.length_drop]
    omega

/-- A first word that begins no instruction ends the listing in truncation. -/
theorem listing_of_not_admits (cursor : Cursor) (first : UInt32)
    (present : cursor.words[cursor.position]? = some first) (refused : ¬ cursor.Admits first) :
    cursor.listing = ⟨[], true⟩ := by
  obtain ⟨inside, rfl⟩ := List.getElem?_eq_some_iff.mp present
  rw [listing, List.drop_eq_getElem_cons inside, Listing.ofRest, if_neg]
  intro fits
  apply refused
  refine ⟨fits.1, ?_⟩
  have within := fits.2
  simp only [List.length_drop] at within
  simp only [remaining]
  omega

/-- Stepping a cursor to its end yields the listing from the cursor on.

By induction on the words left to read: each step is one entry of the listing,
and the cursor past it has the rest of the listing before it. A cursor inside its
words ends at their end; that it was not truncated before is what lets the end
state be read off the listing alone. -/
theorem readAll_eq_listing (cursor : Cursor) (inside : cursor.position ≤ cursor.words.length) :
    cursor.readAll = (cursor.listing.instructions, cursor.finished) := by
  rw [readAll]
  cases present : cursor.words[cursor.position]? with
  | none =>
    have atEnd : cursor.words.length ≤ cursor.position := List.getElem?_eq_none_iff.mp present
    have listed := listing_of_end cursor atEnd
    have stays : cursor.next? = (none, cursor) := by simp only [next?, present]
    have same : cursor.position = cursor.words.length := Nat.le_antisymm inside atEnd
    split
    next stopped stepped =>
      rw [stays] at stepped
      obtain rfl := (Prod.mk.inj stepped).2
      simp only [listed, finished, Bool.false_eq_true, ↓reduceIte, ← same]
    next stepped =>
      rw [stays] at stepped
      simp at stepped
  | some first =>
    by_cases admitted : cursor.Admits first
    · have steps : cursor.next? =
          (some (cursor.announced first), cursor.advance (cursor.announced first)) := by
        simp only [next?, present, admitted, ↓reduceIte]
      have listed := listing_of_admits cursor first present admitted
      split
      next stepped =>
        rw [steps] at stepped
        simp at stepped
      next instruction advanced stepped =>
        rw [steps] at stepped
        obtain ⟨rfl, rfl⟩ := Prod.mk.inj stepped |>.imp Option.some.inj id
        have advancedInside : (cursor.advance (cursor.announced first)).position ≤
            (cursor.advance (cursor.announced first)).words.length := by
          have fits := admitted.2
          simp only [remaining, advance, announced] at fits ⊢
          omega
        have sameEnd : (cursor.advance (cursor.announced first)).finished = cursor.finished := by
          unfold finished
          rw [listed]
          rfl
        simp only [readAll_eq_listing _ advancedInside, sameEnd, listed]
    · have stops : cursor.next? = (none, cursor.exhaust) := by
        simp only [next?, present, admitted, ↓reduceIte]
      have listed := listing_of_not_admits cursor first present admitted
      split
      next stopped stepped =>
        rw [stops] at stepped
        obtain rfl := (Prod.mk.inj stepped).2
        simp only [listed, finished, ↓reduceIte]
      next stepped =>
        rw [stops] at stepped
        simp at stepped
termination_by cursor.remaining
decreasing_by
  have positive := admitted.1
  have fits := admitted.2
  simp only [remaining, advance, announced] at fits ⊢
  omega

end Cursor

end RenderAssets.Spirv
