import PageBuilder.Json.Printer
import PageBuilder.Json.Reader

/-!
# What is read can be written

The reader refuses integers of too many digits, and no other cause of a refusal speaks of digits.
So a value that has been read is one that can be written (`fits_of_read`), and a refusal for the
sake of digits is one of a numeral that has too many (`lt_of_read_longNumeral`).

`Kept` is what the three mutually recursive readers keep of this.  They call each other with less
fuel, so one induction on the fuel proves it of all of them (`kept`).
-/

namespace PageBuilder.Json

open PageBuilder.Text

/-! ## Parts that fit -/

theorem itemsFit_iff {items : List Json} :
    itemsFit items = true ↔ ∀ item ∈ items, item.fits = true := by
  induction items with
  | nil => simp [itemsFit]
  | cons item rest ih => simp [itemsFit, ih]

theorem membersFit_iff {members : List (String × Json)} :
    membersFit members = true ↔ ∀ m ∈ members, m.2.fits = true := by
  induction members with
  | nil => simp [membersFit]
  | cons m rest ih => simp [membersFit, ih]

theorem membersFit_setMember {key : String} {value : Json} {members : List (String × Json)}
    (hvalue : value.fits = true) (h : membersFit members = true) :
    membersFit (setMember key value members) = true := by
  induction members with
  | nil => simp [setMember, membersFit, hvalue]
  | cons m rest ih =>
    obtain ⟨k, v⟩ := m
    simp only [membersFit, Bool.and_eq_true] at h
    rw [setMember]
    split <;> simp [membersFit, hvalue, h.1, h.2, ih h.2]

/-! ## Reading -/

/-- A refusal is not for the sake of digits unless there are too many. -/
def Stop.Fair (stop : Stop) : Prop :=
  ∀ digits, stop.cause = .longNumeral digits → Number.digitLimit < digits

/-- What is read fits, and what is not is refused fairly. -/
def Kept : Reading Json → Prop
  | .ok (json, _) => json.fits = true
  | .error stop => stop.Fair

/-- A refusal of a string has one of its own causes. -/
theorem fair_stringBody {opening cs : List Char} {stop : Stop}
    (h : stringBody opening cs = .error stop) : stop.Fair := by
  fun_induction stringBody opening cs <;> grind [Stop.Fair]

/-- A number is an integer or a double. -/
theorem number?_cases {cs after : List Char} {json : Json} (h : number? cs = some (json, after)) :
    (∃ n, json = .int n) ∨ ∃ x, json = .float x := by
  unfold number? at h
  grind

theorem kept_number {cs : List Char} : Kept (match number? cs with
    | some (.int n, after) =>
      if Number.fits n then .ok (.int n, after)
      else .error ⟨.longNumeral (Number.naturalText n.natAbs).length, cs⟩
    | some result => .ok result
    | none => .error ⟨.value, cs⟩) := by
  cases h : number? cs with
  | none => exact nofun
  | some result =>
    obtain ⟨json, after⟩ := result
    obtain ⟨n, rfl⟩ | ⟨x, rfl⟩ := number?_cases h
    · dsimp only
      split
      · assumption
      · rename_i hfits
        rintro digits ⟨⟩
        simpa [Number.fits] using hfits
    · rfl

/-- Whatever is read fits, by induction on the fuel; what stands in `before` was read on the way.
-/
theorem kept (fuel : Nat) :
    (∀ cs, Kept (valueAt fuel cs)) ∧
    (∀ before cs, membersFit before = true → Kept (membersAt fuel before cs)) ∧
    ∀ before cs, itemsFit before = true → Kept (itemsAt fuel before cs) := by
  induction fuel with
  | zero => exact ⟨fun _ => nofun, fun _ _ _ => nofun, fun _ _ _ => nofun⟩
  | succ fuel ih =>
    obtain ⟨hvalue, hmembers, hitems⟩ := ih
    refine ⟨fun cs => ?_, fun before cs hbefore => ?_, fun before cs hbefore => ?_⟩
    · unfold valueAt
      split
      · split
        · rfl
        · exact fair_stringBody ‹_›
      · split
        · rfl
        · exact hmembers [] _ rfl
      · split
        · rfl
        · exact hitems [] _ rfl
      · -- A word, or else a number.
        iterate 6
          split
          · rfl
        exact kept_number
    · unfold membersAt
      split
      · split
        · exact fair_stringBody ‹_›
        · split
          · rename_i afterColon _
            have hread := hvalue (skipGap afterColon)
            split
            · rename_i heq
              rwa [heq] at hread
            · rename_i heq
              rw [heq] at hread
              dsimp only
              split
              -- A repeated key replaces its member, so this is no list that only grows.
              · exact membersFit_setMember hread hbefore
              · exact hmembers _ _ (membersFit_setMember hread hbefore)
              · exact nofun
          · exact nofun
      · exact nofun
    · unfold itemsAt
      have hread := hvalue cs
      split
      · rename_i heq
        rwa [heq] at hread
      · rename_i heq
        rw [heq] at hread
        have hcons : itemsFit (_ :: before) = true := Bool.and_eq_true_iff.2 ⟨hread, hbefore⟩
        split
        -- The items were gathered last one first.
        · refine itemsFit_iff.2 fun item hm => itemsFit_iff.1 hcons item ?_
          exact List.mem_reverse.1 hm
        · exact hitems _ _ hcons
        · exact nofun

theorem fits_of_readChars {cs : List Char} {json : Json} (h : readChars cs = .ok json) :
    json.fits = true := by
  have hread := (kept (2 * cs.length + 2)).1 (skipGap cs)
  unfold readChars at h
  split at h
  · cases h
  · split at h
    · cases h
    · rename_i heq
      split at h
      · cases h
        rwa [heq] at hread
      · cases h

theorem fair_of_readChars {cs : List Char} {stop : Stop} (h : readChars cs = .error stop) :
    stop.Fair := by
  have hread := (kept (2 * cs.length + 2)).1 (skipGap cs)
  unfold readChars at h
  split at h
  · cases h
    exact nofun
  · split at h
    · rename_i heq
      cases h
      rwa [heq] at hread
    · split at h
      · cases h
      · cases h
        exact nofun

/-- Whatever has been read can be written. -/
theorem fits_of_read {text : String} {json : Json} (h : read text = .ok json) :
    json.fits = true := by
  unfold read at h
  split at h
  · cases h
    exact fits_of_readChars ‹_›
  · cases h

theorem lt_of_read_longNumeral {text : String} {fault : Fault} {digits : Nat}
    (h : read text = .error fault) (hcause : fault.cause = .longNumeral digits) :
    Number.digitLimit < digits := by
  unfold read at h
  split at h
  · cases h
  · rename_i hstop
    cases h
    exact fair_of_readChars hstop digits hcause

end PageBuilder.Json
