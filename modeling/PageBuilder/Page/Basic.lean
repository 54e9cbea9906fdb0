import PageBuilder.Catalog.BuiltIn
import PageBuilder.Page.Element

/-!
# Pages

A page is a map of elements by id and the id of the root.  Nothing in the type makes it a tree:
data from outside is checked by `Page.problems`, and edits keep what the check establishes.
-/

namespace PageBuilder

/-- The elements of a page, and its root unless it is empty. -/
structure Page where
  elements : OrderedMap Element := .empty
  root : Option String := none
deriving DecidableEq, Repr

namespace Page

def get? (page : Page) (id : String) : Option Element :=
  page.elements.get? id

def contains (page : Page) (id : String) : Bool :=
  page.elements.contains id

def size (page : Page) : Nat :=
  page.elements.size

/-- Whether there is no root. -/
def isEmpty (page : Page) : Bool :=
  page.root.isNone

/-- The element of an id that a caller names. -/
def require (page : Page) (id : String) : Except Failure Element :=
  match page.get? id with
  | some e => .ok e
  | none => .error (.rejected (.elementMissing id))

/-- The element of an id that another element names. -/
def fetch (page : Page) (id : String) : Except Failure Element :=
  match page.get? id with
  | some e => .ok e
  | none => .error (.missingElement id)

/-- The parent of an element other than the root. -/
def fetchParent (page : Page) (e : Element) : Except Failure (String × Element) :=
  match e.parent with
  | none => .error .missingParent
  | some id => (id, ·) <$> page.fetch id

/-- The parent of an element, nothing for one without. -/
def parentOf (page : Page) (id : String) : Except Failure (Option Element) :=
  match page.require id with
  | .error failure => .error failure
  | .ok e =>
    match e.parent with
    | none => .ok none
    | some parent => some <$> page.fetch parent

/-- A position in a list of a given length: the end when none is asked for, else the nearest
position there is. -/
def clamp (index : Option Int) (length : Nat) : Nat :=
  match index with
  | none => length
  | some i => min i.toNat length

/-- A list with an item put at a position. -/
def insertAt {α : Type} (index : Option Int) (x : α) (xs : List α) : List α :=
  xs.insertIdx (clamp index xs.length) x

def modify (page : Page) (id : String) (f : Element → Element) : Page :=
  { page with elements := page.elements.modify id f }

/-- Puts an id into the children of an element. -/
def addChild (page : Page) (parent : String) (index : Option Int) (child : String) : Page :=
  page.modify parent fun e => { e with children := insertAt index child e.children }

/-- Takes an id out of the children of an element. -/
def dropChild (page : Page) (parent child : String) : Page :=
  page.modify parent fun e => { e with children := e.children.erase child }

def put (page : Page) (e : Element) : Page :=
  { page with elements := page.elements.insert e.id e }

def delete (page : Page) (id : String) : Page :=
  { page with elements := page.elements.erase id }

theorem clamp_le (index : Option Int) (length : Nat) : clamp index length ≤ length := by
  cases index with
  | none => exact Nat.le_refl _
  | some i => exact Nat.min_le_right _ _

end Page

end PageBuilder
