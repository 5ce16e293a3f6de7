import Finlytic.Web.EventStream

/-! The loop of `splitFrames`, over any alphabet: a string of the source is a
sequence of UTF-16 code units, and a chunk may end between any two of them. The
loop cuts its buffer at every separator, so the frames and the rest do not
depend on the chunks. -/

namespace Finlytic.Web

open Lib Separator

variable {α : Type*} [DecidableEq α] (newline : α)

/-- `FRAME_SEPARATOR`. -/
def separatorOf : { l : List α // l ≠ [] } := ⟨[newline, newline], List.cons_ne_nil _ _⟩

/-- The loop of `splitFrames`: the frames pushed so far, and the rest. -/
def splitLoop (frames : List (List α)) (rest : List α) : List (List α) × List α :=
  match _h : indexOf (separatorOf newline).1 rest with
  | none => (frames, rest)
  | some boundary =>
    splitLoop (frames ++ [rest.take boundary]) (rest.drop (boundary + (separatorOf newline).1.length))
termination_by rest.length
decreasing_by
  have hle := indexOf_le _h
  have hpos := List.length_pos_of_ne_nil (separatorOf newline).2
  rw [List.length_drop]
  omega

/-- `splitFrames`, over the alphabet. -/
def splitFramesOf (buffer : List α) : List (List α) × List α := splitLoop newline [] buffer

/-- One chunk in the loop of `consume`: the frames handled so far, and the buffer. -/
def readChunk (state : List (List α) × List α) (value : List α) : List (List α) × List α :=
  let split := splitFramesOf newline (state.2 ++ value)
  (state.1 ++ split.1, split.2)

theorem splitLoop_eq (frames : List (List α)) (rest : List α) :
    splitLoop newline frames rest =
      (frames ++ (cut (separatorOf newline) rest).1, (cut (separatorOf newline) rest).2) := by
  fun_induction splitLoop newline frames rest with
  | case1 frames rest h => rw [cut_of_none h, List.append_nil]
  | case2 frames rest boundary h ih => rw [ih, cut_of_some h, List.append_assoc, List.singleton_append]

theorem splitFramesOf_eq (buffer : List α) :
    splitFramesOf newline buffer = cut (separatorOf newline) buffer := by
  unfold splitFramesOf
  rw [splitLoop_eq]
  rfl

theorem splitFrames_eq (buffer : List Char) : splitFrames buffer = splitFramesOf '\n' buffer :=
  (splitFramesOf_eq '\n' buffer).symm

theorem readChunk_eq : readChunk newline = feed (separatorOf newline) := by
  funext state value
  unfold readChunk feed
  rw [splitFramesOf_eq]

/-- The frames and the rest do not depend on the chunks; with their separators they make up
the stream, and none of them has a separator inside. -/
theorem splitFrames_chunks (chunks : List (List α)) :
    chunks.foldl (readChunk newline) ([], []) = splitFramesOf newline chunks.flatten ∧
      ((splitFramesOf newline chunks.flatten).1.flatMap fun frame =>
        frame ++ (separatorOf newline).1) ++
        (splitFramesOf newline chunks.flatten).2 = chunks.flatten ∧
      (∀ frame ∈ (splitFramesOf newline chunks.flatten).1, ¬ (separatorOf newline).1 <:+: frame) ∧
      ¬ (separatorOf newline).1 <:+: (splitFramesOf newline chunks.flatten).2 := by
  rw [readChunk_eq, foldl_feed_nil, splitFramesOf_eq]
  have hfree := @cut_free _ _ (separatorOf newline) chunks.flatten
  exact ⟨rfl, cut_join _, hfree.1, hfree.2⟩

end Finlytic.Web
