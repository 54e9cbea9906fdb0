import PageBuilder.Proofs.Results
import PageBuilder.Source.Basic

/-!
# Source files out of templates

The layout of a source file can be given as a template, a text with tags in three braces, to be
filled in by a renderer.  All that is asked of a renderer is that it puts the text of a field in the
place of such a tag as it is, and leaves what stands between tags (`FillsIn`).  Then what comes out
is the source file put together piece by piece (`generateThrough_eq`), whatever the texts of the
fields are: they may hold braces and tags of their own, which are not looked at again.
-/

namespace PageBuilder.Source

open Results

/-! ## Templates -/

/-- What templates are made of. -/
inductive Piece
  /-- A text that stands as it is. -/
  | text (s : String)
  /-- A tag in whose place the text of a field is put. -/
  | field (name : String)
deriving DecidableEq, Repr

namespace Piece

/-- A piece as it stands in a template. -/
def source : Piece → String
  | text s => s
  | field name => "\x7b\x7b\x7b" ++ name ++ "\x7d\x7d\x7d"

/-- What is put in the place of a piece: nothing for a field that there is not. -/
def filled (fields : OrderedMap String) : Piece → String
  | text s => s
  | field name => (fields.get? name).getD ""

end Piece

/-- Whether no opening brace stands before another one or at the end, where a tag may follow. -/
def isPlain : List Char → Bool
  | [] => true
  | [c] => c ≠ '\x7b'
  | c :: d :: rest => (c ≠ '\x7b' || d ≠ '\x7b') && isPlain (d :: rest)

/-- Whether a piece can be told from those around it. -/
def Piece.isApart : Piece → Bool
  | text s => isPlain s.toList
  | field name => !name.isEmpty && name.toList.all fun c => c.isAlpha || c = '_'

/-- Fills fields into a template. -/
abbrev Renderer := String → OrderedMap String → String

/-- A renderer puts the texts of fields in the place of their tags and keeps all else. -/
structure FillsIn (render : Renderer) : Prop where
  render_eq : ∀ {pieces : List Piece}, pieces.all Piece.isApart = true → ∀ fields,
    render (String.join (pieces.map Piece.source)) fields =
      String.join (pieces.map (Piece.filled fields))

/-! ## The template of a source file -/

/-- The layout of a source file in a dialect. -/
def template (dialect : String) : List Piece :=
  [.field "header", .text "export default function ", .field "name"] ++
    (if dialect = "tsx" then [.text "(): ", .field "return_type"] else [.text "()"]) ++
    [.text " \x7b\n", .field "body", .text "\n\x7d\n"]

example : String.join ((template "tsx").map Piece.source) =
    "\x7b\x7b\x7bheader\x7d\x7d\x7dexport default function \x7b\x7b\x7bname\x7d\x7d\x7d(): " ++
      "\x7b\x7b\x7breturn_type\x7d\x7d\x7d \x7b\n\x7b\x7b\x7bbody\x7d\x7d\x7d\n\x7d\n" := by
  decide

/-- What is filled into the template. -/
def fieldsOf (header name returnType body : String) : OrderedMap String :=
  .ofList [("header", header), ("name", name), ("return_type", returnType), ("body", body)]

/-- The source file of a snapshot, by way of a template. -/
def generateThrough (render : Renderer) (snapshot : Snapshot) (options : Options)
    (catalog : Catalog) : Except Failure Source := do
  options.checkDialect
  let known ← Markup.components catalog.orBuiltIn snapshot.page
  let unit ← options.unit
  let body ← bodyLines snapshot.page known unit
  let name := componentName options.name
  let header := if options.imports then importHeader options known.values else ""
  let fields := fieldsOf header name (returnType snapshot.page) (Text.join "\n" body)
  return ⟨Text.tidy (render (String.join ((template options.dialect).map Piece.source)) fields),
    name⟩

variable {render : Renderer}

theorem join_filled (dialect header name returnType body : String) :
    String.join ((template dialect).map
        (Piece.filled (fieldsOf header name returnType body))) =
      header ++ ("export default function " ++ name ++
        if dialect = "tsx" then "(): " ++ returnType else "()") ++ " \x7b\n" ++ body ++
          "\n\x7d\n" := by
  generalize hfields : fieldsOf header name returnType body = fields
  have hheader : fields.get? "header" = some header := by rw [← hfields]; rfl
  have hname : fields.get? "name" = some name := by rw [← hfields]; rfl
  have hreturn : fields.get? "return_type" = some returnType := by rw [← hfields]; rfl
  have hbody : fields.get? "body" = some body := by rw [← hfields]; rfl
  unfold template
  split
  all_goals
    simp only [List.cons_append, List.nil_append, List.map_cons, List.map_nil, Piece.filled,
      hheader, hname, hreturn, hbody, Option.getD_some, String.join_cons, String.join_nil,
      String.append_assoc, String.append_empty]

/-- A template filled in is a source file put together. -/
theorem FillsIn.assemble_eq (h : FillsIn render) (options : Options) (page : Page)
    (header name body : String) :
    render (String.join ((template options.dialect).map Piece.source))
        (fieldsOf header name (returnType page) body) =
      assemble header (signature options page name) body := by
  have hapart : (template options.dialect).all Piece.isApart = true := by
    unfold template
    split <;> decide
  exact (h.render_eq hapart _).trans (join_filled _ _ _ _ _)

/-- Through a template the same source files are generated. -/
theorem generateThrough_eq (h : FillsIn render) (snapshot : Snapshot) (options : Options)
    (catalog : Catalog) :
    generateThrough render snapshot options catalog = generate snapshot options catalog := by
  simp only [generateThrough, generate, h.assemble_eq]

/-! ## A renderer -/

/-- Goes through a template and puts the text of a field in the place of each tag in three braces;
there are no others. -/
def fill (fields : OrderedMap String) : List Char → List Char
  | '\x7b' :: '\x7b' :: '\x7b' :: cs =>
    ((fields.get? (String.ofList (cs.takeWhile (· ≠ '\x7d')))).getD "").toList ++
      fill fields ((cs.dropWhile (· ≠ '\x7d')).drop 3)
  | c :: cs => c :: fill fields cs
  | [] => []
termination_by cs => cs.length
decreasing_by
  · have hle := (cs.dropWhile_sublist fun c => decide (c ≠ '\x7d')).length_le
    simp only [List.length_drop, List.length_cons]
    omega
  · exact Nat.lt_succ_self _

/-- The renderer that fills in tags and nothing else. -/
def fillTags : Renderer := fun text fields => String.ofList (fill fields text.toList)

section Fill

variable {fields : OrderedMap String} {c : Char} {cs rest : List Char}

theorem fill_of_ne (h : c ≠ '\x7b') (cs : List Char) :
    fill fields (c :: cs) = c :: fill fields cs := by
  rw [fill]
  rintro _ rfl
  exact absurd rfl h

theorem fill_of_next_ne {d : Char} (h : d ≠ '\x7b') (c : Char) (cs : List Char) :
    fill fields (c :: d :: cs) = c :: fill fields (d :: cs) := by
  rw [fill]
  rintro _ rfl heq
  exact absurd (List.cons.inj heq).1 h

theorem fill_text (h : isPlain cs = true) (rest : List Char) :
    fill fields (cs ++ rest) = cs ++ fill fields rest := by
  fun_induction isPlain cs
  case case1 => rfl
  case case2 c =>
    exact fill_of_ne (by simpa using h) rest
  case case3 c d more ih =>
    obtain ⟨hbrace, hmore⟩ := Bool.and_eq_true_iff.1 h
    have hfirst : fill fields (c :: d :: (more ++ rest)) =
        c :: fill fields (d :: (more ++ rest)) := by
      rcases Bool.or_eq_true_iff.1 hbrace with hne | hne
      · exact fill_of_ne (of_decide_eq_true hne) _
      · exact fill_of_next_ne (of_decide_eq_true hne) c _
    rw [List.cons_append, List.cons_append, hfirst, ← List.cons_append, ih hmore,
      List.cons_append]
    rfl

theorem fill_field {name : List Char} (h : '\x7d' ∉ name) (rest : List Char) :
    fill fields ('\x7b' :: '\x7b' :: '\x7b' :: (name ++ '\x7d' :: '\x7d' :: '\x7d' :: rest)) =
      ((fields.get? (String.ofList name)).getD "").toList ++ fill fields rest := by
  have hname : ∀ c ∈ name, decide (c ≠ '\x7d') = true :=
    fun c hc => decide_eq_true fun heq => h (heq ▸ hc)
  rw [fill, List.takeWhile_append_of_pos hname, List.dropWhile_append_of_pos hname]
  simp

theorem toList_fill {pieces : List Piece} (h : pieces.all Piece.isApart = true) :
    fill fields (String.join (pieces.map Piece.source)).toList =
      (String.join (pieces.map (Piece.filled fields))).toList := by
  induction pieces with
  | nil => simp [fill]
  | cons piece more ih =>
    obtain ⟨hpiece, hmore⟩ := Bool.and_eq_true_iff.1 h
    rw [List.map_cons, List.map_cons, String.join_cons, String.join_cons, String.toList_append,
      String.toList_append, ← ih hmore]
    cases piece with
    | text s => exact fill_text hpiece _
    | field name =>
      have hletters := (Bool.and_eq_true_iff.1 hpiece).2
      have hbrace : '\x7d' ∉ name.toList :=
        fun hm => absurd (List.all_eq_true.1 hletters _ hm) (by decide)
      have hsource : (Piece.field name).source.toList =
          '\x7b' :: '\x7b' :: '\x7b' :: (name.toList ++ ['\x7d', '\x7d', '\x7d']) := by
        simp [Piece.source]
      rw [hsource, Piece.filled, ← String.ofList_toList (s := name), ← fill_field hbrace]
      simp

theorem fillsIn_fillTags : FillsIn fillTags where
  render_eq h fields := by
    rw [fillTags, toList_fill h, String.ofList_toList]

end Fill

end PageBuilder.Source
