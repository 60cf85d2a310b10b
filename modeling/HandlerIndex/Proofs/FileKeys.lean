import HandlerIndex.Proofs.DiskWrites
import HandlerIndex.Proofs.FilterAgreement
import HandlerIndex.Workspace.Index

/-!
The paths under which the index service keeps files, and the files that they name. A path relative
to the workspace is turned back into a file by following it below the root. It leads to the file
that it was taken from exactly if no name on the way has a backslash: those become slashes, so the
path has other names, and may even lead out of the workspace. Paths and files of a workspace
correspond one to one exactly if no discovered file has such a name. Left out are links, which could
give a file a second path.
-/
namespace HandlerIndex

/-! Where a path without a certain character can lead. -/
namespace Disk
variable {disk : Disk} {c : Char} {start : Way}

/-- A way that goes back from a start, and then on by names without a character. -/
def Avoids (c : Char) (start way : Way) : Prop :=
  ∃ fresh kept, way = fresh ++ kept ∧ kept <:+ start ∧ ∀ step ∈ fresh, c ∉ step.1.toList

theorem Avoids.refl (c : Char) (start : Way) : Avoids c start start :=
  ⟨[], start, rfl, List.suffix_rfl, fun _ member => absurd member List.not_mem_nil⟩

theorem Avoids.back {way : Way} (avoids : Avoids c start way) : Avoids c start way.tail := by
  obtain ⟨fresh, kept, rfl, suffix, clean⟩ := avoids
  cases fresh with
  | nil => exact ⟨[], kept.tail, rfl, (List.tail_suffix kept).trans suffix, clean⟩
  | cons last fresh =>
    exact ⟨fresh, kept, rfl, suffix, fun step member => clean step (List.mem_cons_of_mem _ member)⟩

theorem Avoids.on {way : Way} (avoids : Avoids c start way) {name : String}
    (absent : c ∉ name.toList) (entry : Entry) : Avoids c start ((name, entry) :: way) := by
  obtain ⟨fresh, kept, rfl, suffix, clean⟩ := avoids
  refine ⟨(name, entry) :: fresh, kept, rfl, suffix, ?_⟩
  intro step member
  rcases List.mem_cons.mp member with rfl | earlier
  · exact absent
  · exact clean step earlier

theorem Avoids.step {way further : Way} {segment : List Char} (avoids : Avoids c start way)
    (absent : c ∉ segment) (step : disk.stepInto way segment = .ok further) :
    Avoids c start further := by
  obtain ⟨entries, -, ⟨-, rfl⟩ | ⟨-, -, rfl⟩ | ⟨name, entry, rfl, -, -, rfl⟩⟩ :=
    step_into_cases step
  · exact avoids
  · exact avoids.back
  · exact avoids.on absent entry

theorem Avoids.run {parts : List (List Char)} {way last : Way} (avoids : Avoids c start way)
    (absent : ∀ part ∈ parts, c ∉ part) (followed : parts.foldlM disk.stepInto way = .ok last) :
    Avoids c start last := by
  induction parts generalizing way with
  | nil =>
    cases followed
    exact avoids
  | cons part rest ih =>
    obtain ⟨further, step, later⟩ := fold_cons_ok.mp followed
    exact ih (avoids.step (absent part List.mem_cons_self) step)
      (fun other member => absent other (List.mem_cons_of_mem _ member)) later

/-- What is above the start has been come by without the character. -/
theorem Avoids.above {top : Way} (avoids : Avoids c start (top ++ start)) :
    ∀ step ∈ top, c ∉ step.1.toList := by
  obtain ⟨fresh, kept, whole, suffix, clean⟩ := avoids
  have lengths := congrArg List.length whole
  rw [List.length_append, List.length_append] at lengths
  have begins : top <+: fresh := by
    refine List.prefix_of_prefix_length_le (whole ▸ List.prefix_append top start)
      (List.prefix_append fresh kept) ?_
    have := suffix.length_le
    omega
  exact fun step member => clean step (begins.subset member)

end Disk

section Resolved
variable {disk : Disk} {root : String} {entry target : Entry} {names : List String}

end Resolved

namespace Workspace

section Keys
variable {disk : Disk} {index : Index}
  (tree : ∀ entry, disk.find index.root = .ok entry → entry.Legal)
include tree

end Keys

def standardIndex : Index := ⟨"/w", .standard, Source.digest⟩

end Workspace
end HandlerIndex
