import JavaMachine.Proofs.FailingState
import JavaMachine.Machine.State

/-!
The files of named classes.

A name is cut at its slashes by a recursion on positions of the text. The same recursion with so
many steps (`Path.cutWithin`) can be evaluated, and agrees with it wherever it ends.
-/

namespace JavaMachine

namespace Path

/-- The parts of the rest of a text, in at most so many steps of `String.splitOnAux`. -/
def cutWithin (text : String) : Nat → String.Pos.Raw → String.Pos.Raw → List String →
      Option (List String)
  | 0, _, _, _ => none
  | steps + 1, first, i, parts =>
    if i.atEnd text then some (String.Pos.Raw.extract text first i :: parts).reverse
    else if i.get text = '/' then
      let next := i.next text
      cutWithin text steps next next
        (String.Pos.Raw.extract text first (next.unoffsetBy (String.Pos.Raw.next "/" 0)) :: parts)
    else cutWithin text steps first ((i.unoffsetBy 0).next text) parts

theorem splitOnAux_of_cutWithin {text : String} {cut : List String} :
    ∀ {steps : Nat} {first i : String.Pos.Raw} {parts : List String},
      cutWithin text steps first i parts = some cut → text.splitOnAux "/" first i 0 parts = cut
  | 0, _, _, _, h => by cases h
  | steps + 1, first, i, parts, h => by
    have hslash : String.Pos.Raw.get "/" 0 = '/' := by decide
    have hend : String.Pos.Raw.atEnd "/" (String.Pos.Raw.next "/" 0) = true := by decide
    rw [cutWithin] at h
    rw [String.splitOnAux, hslash]
    dsimp only
    rw [if_pos hend]
    split at h
    · rename_i hdone
      rw [if_pos hdone]
      exact Option.some.inj h
    · rename_i hmore
      rw [if_neg hmore]
      split at h
      · rename_i hget
        rw [if_pos (by rw [hget]; rfl)]
        exact splitOnAux_of_cutWithin h
      · rename_i hget
        rw [if_neg (by simpa using hget)]
        exact splitOnAux_of_cutWithin h

theorem ofText_of_cutWithin {text : String} {steps : Nat} {cut : List String}
    (h : cutWithin text steps 0 0 [] = some cut) : ofText text = cut := by
  unfold ofText String.splitOn
  rw [if_neg (by decide)]
  exact splitOnAux_of_cutWithin h

end Path

/-- A class is looked for in the file that has the last part of its name, below the other parts. -/
theorem Machine.classFile?_of_cutWithin (m : Machine) {name last : String} {steps : Nat}
    {parents : Path} (hcut : Path.cutWithin name steps 0 0 [] = some (parents ++ [last]))
    (hplain : ∀ part ∈ parents ++ [last], part ≠ "" ∧ part ≠ "." ∧ part ≠ "..") :
    m.classFile? name = m.directories.findSome? fun directory =>
      directory.read? (parents ++ [String.ofList (ClassPath.stem last.toList) ++ ".class"]) := by
  have hparts : ((parents ++ [last]).filter fun part => part ≠ "" && part ≠ ".") = parents ++ [last] :=
    List.filter_eq_self.mpr fun part hpart => by simp [hplain part hpart]
  have hlast : last ≠ ".." := (hplain last (by simp)).2.2
  rw [classFile?, ClassPath.file?, Path.ofText_of_cutWithin hcut, hparts, List.reverse_append]
  simp [hlast]

end JavaMachine
