import PageBuilder.Page.Element
import PageBuilder.Style.Vocabulary
import PageBuilder.Text.Blank
import PageBuilder.Value.Text

/-!
# Checks of props and style attributes

A prop has to make an attribute: its name is an attribute name that the generator does not write
by itself, its value a text, a number, a truth value or a binding to an expression that is not
blank.  A style attribute has to be of a known category and be a text or an integer; integers
become texts.  In a partial update the null value marks a deletion.

The first attribute, in the order given, that fails decides the fault.  A fault that shows a value
cannot be put in words when the value has no text; `textFault?` says so.
-/

namespace PageBuilder

inductive PropFault
  | malformed (name : String)
  | reserved (name : String)
  | unsupported (name : String) (value : Value)
  | infinite (name : String)
  | unbound (name : String)
deriving DecidableEq, Repr

inductive StyleFault
  | unknown (category : String)
  | unsupported (category : String) (value : Value)
  /-- An integer that has too many digits to become a text. -/
  | tooLong (category : String)
deriving DecidableEq, Repr

def PropFault.message : PropFault → String
  | .malformed name => "invalid prop name " ++ Text.quote name
  | .reserved name => "'" ++ name ++ "' is derived, not a prop"
  | .unsupported name value => "'" ++ name ++ "' has unsupported value " ++ value.quoted
  | .infinite name => "'" ++ name ++ "' must be a finite number"
  | .unbound name => "'" ++ name ++ "' is bound to an empty expression"

/-- Why a fault cannot be put in words. -/
def PropFault.textFault? : PropFault → Option TextFault
  | .unsupported _ value => value.textFault?
  | _ => none

/-- A fault of a style attribute in words; of an unknown category, the category. -/
def StyleFault.message : StyleFault → String
  | .unknown category => category
  | .unsupported category value =>
    "style '" ++ category ++ "' has unsupported value " ++ value.quoted
  | .tooLong _ => TextFault.longInteger.message

/-- Why a fault cannot be put in words; of an integer without a text there is nothing to say but
that. -/
def StyleFault.textFault? : StyleFault → Option TextFault
  | .unsupported _ value => value.textFault?
  | .tooLong _ => some .longInteger
  | .unknown _ => none

namespace Props

/-- A letter of ASCII or an underscore. -/
def isNameStart (c : Char) : Bool :=
  c.isAlpha || c = '_'

/-- What may follow in an attribute name. -/
def isNameChar (c : Char) : Bool :=
  c.isAlpha || c.isDigit || c = '_' || c = ':' || c = '-'

/-- Attribute names; one line feed at the end is let pass. -/
def isName (name : String) : Bool :=
  match Element.withoutFinalNewline name.toList with
  | [] => false
  | c :: rest => isNameStart c && rest.all isNameChar

/-- Names the generator writes from style attributes and children. -/
def reserved : List String :=
  ["className", "class", "children"]

def checkValue (name : String) : Value → Except PropFault Unit
  | .null => .ok ()
  | .bool _ => .ok ()
  | .int _ => .ok ()
  | .str _ => .ok ()
  | .float x => if x.isFinite then .ok () else .error (.infinite name)
  | .binding (.str s) => if Text.isBlankText s then .error (.unbound name) else .ok ()
  | .binding _ => .error (.unbound name)
  | .list items => .error (.unsupported name (.list items))
  | .dict fields => .error (.unsupported name (.dict fields))
  | .tooDeep => .error (.unsupported name .tooDeep)

def checkOne (name : String) (value : Value) : Except PropFault Unit :=
  if !isName name then .error (.malformed name)
  else if reserved.contains name then .error (.reserved name)
  else checkValue name value

def checkEntries : List (String × Value) → Except PropFault Unit
  | [] => .ok ()
  | (name, value) :: rest =>
    match checkOne name value with
    | .error fault => .error fault
    | .ok () => checkEntries rest

/-- Checks a partial update of props. -/
def check (props : OrderedMap Value) : Except PropFault Unit :=
  checkEntries props.entries

theorem checkEntries_eq_ok_iff (es : List (String × Value)) :
    checkEntries es = .ok () ↔ ∀ e ∈ es, checkOne e.1 e.2 = .ok () := by
  induction es with
  | nil => simp [checkEntries]
  | cons e rest ih =>
    obtain ⟨name, value⟩ := e
    simp only [checkEntries, List.forall_mem_cons]
    cases h : checkOne name value with
    | error fault => simp
    | ok u => simp [ih]

end Props

namespace Style

/-- Checks one style attribute and gives the value that is kept. -/
def checkOne (category : String) (value : Value) : Except StyleFault Value :=
  if !isKnown category then .error (.unknown category)
  else
    match value with
    | .null => .ok .null
    | .str s => .ok (.str s)
    | .int n => if Number.fits n then .ok (.str (Number.numeral n)) else .error (.tooLong category)
    | other => .error (.unsupported category other)

/-- Checks style attributes in order, sets those that pass on top of `done`. -/
def checkEntries (done : OrderedMap Value) :
    List (String × Value) → Except StyleFault (OrderedMap Value)
  | [] => .ok done
  | (category, value) :: rest =>
    match checkOne category value with
    | .error fault => .error fault
    | .ok kept => checkEntries (done.insert category kept) rest

/-- Checks a partial update of style attributes and gives what is kept of it. -/
def check (style : OrderedMap Value) : Except StyleFault (OrderedMap Value) :=
  checkEntries .empty style.entries

end Style

/-- A partial update layered over a base, entry by entry: null removes a key, any other value
sets it. -/
def overlayEntries (base : OrderedMap Value) : List (String × Value) → OrderedMap Value
  | [] => base
  | (key, value) :: rest =>
    overlayEntries (if value.isNull then base.erase key else base.insert key value) rest

/-- A partial update layered over a base. -/
def overlay (base update : OrderedMap Value) : OrderedMap Value :=
  overlayEntries base update.entries

/-- A key the update does not mention keeps its value; of a key it mentions the value is the
update's, or gone if that is null. -/
theorem get?_overlayEntries (base : OrderedMap Value) (es : List (String × Value)) (key : String)
    (hn : (es.map Prod.fst).Nodup) :
    (overlayEntries base es).get? key =
      match es.lookup key with
      | none => base.get? key
      | some value => if value.isNull then none else some value := by
  induction es generalizing base with
  | nil => simp [overlayEntries]
  | cons e rest ih =>
    obtain ⟨k, v⟩ := e
    simp only [List.map_cons, List.nodup_cons] at hn
    rw [overlayEntries, ih _ hn.2, lookup_cons_pair]
    by_cases hk : key = k
    · subst hk
      rw [if_pos rfl, lookup_eq_none_iff_not_mem.2 hn.1]
      cases hv : v.isNull <;> simp [hv, OrderedMap.get?_insert, OrderedMap.get?_erase]
    · rw [if_neg hk]
      cases rest.lookup key with
      | some value => rfl
      | none =>
        cases hv : v.isNull <;> simp [OrderedMap.get?_insert, OrderedMap.get?_erase, hk]

theorem get?_overlay (base update : OrderedMap Value) (key : String) :
    (overlay base update).get? key =
      match update.get? key with
      | none => base.get? key
      | some value => if value.isNull then none else some value :=
  get?_overlayEntries base update.entries key update.nodup_keys

end PageBuilder
