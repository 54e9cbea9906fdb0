import PageBuilder.Proofs.Maps
import PageBuilder.Proofs.Number.Limit
import PageBuilder.Proofs.Text.Tidy
import PageBuilder.Style.Resolve

/-!
# What a style resolves to

No token is in the vocabulary twice, so a token says which category and which value it stands for
(`spelled?`), and the tokens of a style can be told apart by category (`ofCategory_tokens`).  They
say exactly which pairs of the style count (`mem_spelled_iff`): those that the vocabulary knows,
less those that a hidden element leaves out.  Nothing else of the style shows in them, and since no
token holds a space, nothing is lost in a class name either.
-/

namespace PageBuilder

/-! ## Words -/

namespace Text

/-- The parts of a text between spaces, without empty ones. -/
def words (s : String) : List String :=
  ((s.toList.splitOn ' ').filter fun word => !word.isEmpty).map String.ofList

theorem words_join {parts : List String} (h : ∀ part ∈ parts, part ≠ "" ∧ ' ' ∉ part.toList) :
    words (join " " parts) = parts := by
  by_cases hnil : parts = []
  · rw [hnil]
    rfl
  have hsplit : (join " " parts).toList.splitOn ' ' = parts.map String.toList :=
    splitOn_join rfl hnil fun part hpart => (h part hpart).2
  have hfilter : (parts.map String.toList).filter (fun word => !word.isEmpty) =
      parts.map String.toList := by
    apply List.filter_eq_self.2
    intro cs hcs
    obtain ⟨part, hpart, rfl⟩ := List.mem_map.1 hcs
    simpa using (h part hpart).1
  rw [words, hsplit, hfilter, List.map_map]
  simp [Function.comp_def]

end Text

namespace Style

variable {style other : OrderedMap Value} {category value token : String} {c : Category}

/-! ## The vocabulary as a table -/

/-- The token of a value of a category. -/
def tokenOf? (category value : String) : Option String :=
  (category? category).bind fun c => c.tokens.lookup value

/-- The category and the value that a token spells. -/
def spelled? (token : String) : Option (String × String) :=
  categories.findSome? fun c => (c.tokens.find? (·.2 = token)).map fun e => (c.name, e.1)

theorem spelled?_of_mem :
    ∀ c ∈ categories, ∀ e ∈ c.tokens, spelled? e.2 = some (c.name, e.1) := by
  decide +kernel

theorem filter_name : ∀ c ∈ categories, categories.filter (·.name = c.name) = [c] := by
  decide +kernel

/-- What tokens are written with. -/
def isTokenChar (c : Char) : Bool :=
  c.isLower || c.isDigit || c = '-' || c = '/'

theorem written_of_mem : ∀ c ∈ categories, ∀ e ∈ c.tokens,
    e.2 ≠ "" ∧ ∀ char ∈ e.2.toList, isTokenChar char = true := by
  have htable : ∀ c ∈ categories, ∀ e ∈ c.tokens,
      e.2 ≠ "" ∧ e.2.toList.all isTokenChar = true := by
    decide +kernel
  intro c hc e he
  exact (htable c hc e he).imp_right List.all_eq_true.1

theorem category?_name (h : c ∈ categories) : category? c.name = some c := by
  rw [category?, ← List.head?_filter, filter_name c h]
  rfl

theorem mem_of_category? (h : category? category = some c) : c ∈ categories ∧ c.name = category :=
  ⟨List.mem_of_find?_eq_some h, by simpa using List.find?_some h⟩

theorem spelled?_of_tokenOf? (h : tokenOf? category value = some token) :
    spelled? token = some (category, value) := by
  obtain ⟨c, hc, hlookup⟩ := Option.bind_eq_some_iff.1 h
  obtain ⟨hm, rfl⟩ := mem_of_category? hc
  exact spelled?_of_mem c hm _ (mem_of_lookup hlookup)

theorem exists_tokenOf?_iff :
    (∃ token, tokenOf? category value = some token) ↔ value ∈ knownValues category := by
  rw [tokenOf?, knownValues]
  cases category? category with
  | none => simp
  | some c =>
    rw [Option.bind_some, ← Option.isSome_iff_exists, ← Option.ne_none_iff_isSome, ne_eq,
      lookup_eq_none_iff_not_mem, not_not]

/-! ## The pairs that count -/

/-- A category counts in a style with a value, given as text, that the vocabulary knows, unless the
style hides the element and the category only means something for its children. -/
structure Counts (style : OrderedMap Value) (category value : String) : Prop where
  known : value ∈ knownValues category
  set : ∃ v, style.get? category = some v ∧ v ≠ .null ∧ v.text = value
  shown : ¬ (style.get? "display" = some (.str "hidden") ∧ category ∈ layoutCategories)

theorem Counts.congr (hsame : style.get? category = other.get? category)
    (hhidden : category ∈ layoutCategories →
      (other.get? "display" = some (.str "hidden") → style.get? "display" = some (.str "hidden")))
    (h : Counts style category value) : Counts other category value :=
  ⟨h.known, hsame ▸ h.set, fun hboth => h.shown ⟨hhidden hboth.2 hboth.1, hboth.2⟩⟩

theorem consulted?_eq_some_iff {v : Value} : consulted? style c = some v ↔
    style.get? c.name = some v ∧ v ≠ .null ∧
      ¬ (style.get? "display" = some (.str "hidden") ∧ c.name ∈ layoutCategories) := by
  have hhidden : (isHidden style && layoutCategories.contains c.name) = true ↔
      style.get? "display" = some (.str "hidden") ∧ c.name ∈ layoutCategories := by
    rw [isHidden, Bool.and_eq_true, decide_eq_true_eq, List.contains_iff_mem]
  rw [← hhidden, consulted?]
  constructor
  · intro h
    split at h
    case h_1 | h_2 => cases h
    case h_3 w hne hget =>
      split at h
      case isTrue => cases h
      case isFalse hshown =>
        cases h
        exact ⟨hget, hne, hshown⟩
  · rintro ⟨hget, hne, hshown⟩
    rw [hget]
    split
    case h_1 heq => cases heq
    case h_2 heq =>
      cases heq
      exact absurd rfl hne
    case h_3 w _ heq =>
      cases heq
      rw [if_neg hshown]

theorem token?_eq_some_iff (hc : c ∈ categories) :
    token? style c = some token ↔
      ∃ value, Counts style c.name value ∧ tokenOf? c.name value = some token := by
  have hlookup : ∀ value, tokenOf? c.name value = c.tokens.lookup value := by
    intro value
    rw [tokenOf?, category?_name hc, Option.bind_some]
  constructor
  · intro h
    obtain ⟨v, hv, hlooked⟩ := Option.bind_eq_some_iff.1 h
    obtain ⟨hget, hne, hshown⟩ := consulted?_eq_some_iff.1 hv
    rw [← hlookup] at hlooked
    exact ⟨v.text, ⟨exists_tokenOf?_iff.1 ⟨token, hlooked⟩, ⟨v, hget, hne, rfl⟩, hshown⟩, hlooked⟩
  · rintro ⟨value, hcounts, htoken⟩
    obtain ⟨v, hget, hne, rfl⟩ := hcounts.set
    rw [hlookup] at htoken
    exact Option.bind_eq_some_iff.2
      ⟨v, consulted?_eq_some_iff.2 ⟨hget, hne, hcounts.shown⟩, htoken⟩

theorem mem_tokens_iff : token ∈ tokens style ↔
    ∃ category value, Counts style category value ∧ tokenOf? category value = some token := by
  rw [tokens, List.mem_filterMap]
  constructor
  · rintro ⟨c, hc, htoken⟩
    obtain ⟨value, hcounts⟩ := (token?_eq_some_iff hc).1 htoken
    exact ⟨c.name, value, hcounts⟩
  · rintro ⟨category, value, hcounts, htoken⟩
    obtain ⟨c, hc, -⟩ := Option.bind_eq_some_iff.1 htoken
    obtain ⟨hm, rfl⟩ := mem_of_category? hc
    exact ⟨c, hm, (token?_eq_some_iff hm).2 ⟨value, hcounts, htoken⟩⟩

/-- The pairs that the tokens of a style spell are those that count. -/
theorem mem_spelled_iff : (category, value) ∈ (tokens style).filterMap spelled? ↔
    Counts style category value := by
  rw [List.mem_filterMap]
  constructor
  · rintro ⟨token, hm, hspelled⟩
    obtain ⟨category', value', hcounts, htoken⟩ := mem_tokens_iff.1 hm
    cases (spelled?_of_tokenOf? htoken).symm.trans hspelled
    exact hcounts
  · intro h
    obtain ⟨token, htoken⟩ := exists_tokenOf?_iff.2 h.known
    exact ⟨token, mem_tokens_iff.2 ⟨_, _, h, htoken⟩, spelled?_of_tokenOf? htoken⟩

/-- Styles resolve to the same tokens exactly if the same pairs count in them. -/
theorem tokens_eq_iff : tokens style = tokens other ↔
    ∀ category value, Counts style category value ↔ Counts other category value := by
  constructor
  · intro h category value
    rw [← mem_spelled_iff, h, mem_spelled_iff]
  · intro h
    apply List.filterMap_congr
    intro c hc
    apply Option.ext
    intro token
    simp only [token?_eq_some_iff hc, h]

theorem tokens_congr (h : style.Same other) : tokens style = tokens other :=
  tokens_eq_iff.2 fun category _ =>
    ⟨Counts.congr (h category) fun _ => (h _).trans, Counts.congr (h category).symm fun _ =>
      (h _).symm.trans⟩

/-- The tokens of a style as one text, which is its class name if it can be resolved. -/
def classText (style : OrderedMap Value) : String :=
  Text.join " " (tokens style)

theorem classText_congr (h : style.Same other) : classText style = classText other := by
  rw [classText, classText, tokens_congr h]

/-! ## Order -/

/-- The categories with their places: that of the group, and that within the group. -/
def cells : List ((Nat × Nat) × Category) :=
  vocabulary.zipIdx.flatMap fun (group, g) =>
    group.categories.zipIdx.map fun (category, c) => ((g, c), category)

theorem map_cells : cells.map Prod.snd = categories := by
  decide

/-- A token stands before another in the vocabulary: in an earlier group, or in an earlier category
of the same group. -/
def Precedes (token later : String) : Prop :=
  ∃ p ∈ cells, ∃ q ∈ cells, token ∈ p.2.tokens.map Prod.snd ∧ later ∈ q.2.tokens.map Prod.snd ∧
    (p.1.1 < q.1.1 ∨ p.1.1 = q.1.1 ∧ p.1.2 < q.1.2)

theorem mem_tokens_of_token? (h : token? style c = some token) :
    token ∈ c.tokens.map Prod.snd := by
  obtain ⟨v, -, hlookup⟩ := Option.bind_eq_some_iff.1 h
  exact List.mem_map.2 ⟨_, mem_of_lookup hlookup, rfl⟩

theorem pairwise_precedes (style : OrderedMap Value) : (tokens style).Pairwise Precedes := by
  have hcells : cells.Pairwise fun p q => p.1.1 < q.1.1 ∨ p.1.1 = q.1.1 ∧ p.1.2 < q.1.2 := by
    decide
  rw [tokens, ← map_cells, List.filterMap_map, List.pairwise_filterMap]
  refine hcells.imp_of_mem fun {p q} hp hq hlt token htoken later hlater => ?_
  exact ⟨p, hp, q, hq, mem_tokens_of_token? htoken, mem_tokens_of_token? hlater, hlt⟩

/-! ## The share of a category -/

/-- The tokens that spell a value of a category. -/
def ofCategory (category : String) (tokens : List String) : List String :=
  tokens.filter fun token => (spelled? token).any (·.1 = category)

theorem filter_category? (category : String) :
    categories.filter (·.name = category) = (category? category).toList := by
  cases h : category? category with
  | none => simpa [category?] using h
  | some c =>
    obtain ⟨hm, rfl⟩ := mem_of_category? h
    exact filter_name c hm

/-- What a category adds to the tokens of a style. -/
theorem ofCategory_tokens (style : OrderedMap Value) (category : String) :
    ofCategory category (tokens style) = ((category? category).bind (token? style)).toList := by
  have hfilter : ∀ c ∈ categories,
      (token? style c).filter (fun token => (spelled? token).any (·.1 = category)) =
        if c.name = category then token? style c else none := by
    intro c hc
    cases htoken : token? style c with
    | none => simp
    | some token =>
      obtain ⟨value, -, hvalue⟩ := (token?_eq_some_iff hc).1 htoken
      simp [Option.filter, spelled?_of_tokenOf? hvalue]
  calc ofCategory category (tokens style)
      = categories.filterMap fun c => if c.name = category then token? style c else none := by
        rw [ofCategory, tokens, List.filter_filterMap]
        exact List.filterMap_congr hfilter
    _ = (categories.filter (·.name = category)).filterMap (token? style) := by
        rw [List.filterMap_filter]
        simp
    _ = ((category? category).bind (token? style)).toList := by
        rw [filter_category?]
        cases category? category with
        | none => rfl
        | some c => cases htoken : token? style c <;> simp [htoken]

theorem nodup_tokens (style : OrderedMap Value) : (tokens style).Nodup := by
  have hnames : categories.Pairwise fun c d => c.name ≠ d.name := by
    decide +kernel
  rw [tokens, List.Nodup, List.pairwise_filterMap]
  refine hnames.imp_of_mem fun {c d} hc hd hne token htoken later hlater heq => hne ?_
  obtain ⟨value, -, hvalue⟩ := (token?_eq_some_iff hc).1 htoken
  obtain ⟨value', -, hvalue'⟩ := (token?_eq_some_iff hd).1 hlater
  rw [← heq] at hvalue'
  have hspelled := (spelled?_of_tokenOf? hvalue).symm.trans (spelled?_of_tokenOf? hvalue')
  exact congrArg Prod.fst (Option.some.inj hspelled)

/-! ## What does not show -/

theorem display_ne_hidden (h : ∀ v, style.get? category = some v →
    v = .null ∨ v.text ∉ knownValues category) :
    category = "display" → style.get? "display" ≠ some (.str "hidden") := by
  rintro rfl hget
  rcases h _ hget with heq | hunknown
  · cases heq
  · exact hunknown (by decide)

/-- Of a category that the vocabulary does not know, or whose value is null or one that it does not
know, nothing shows. -/
theorem tokens_erase (h : ∀ v, style.get? category = some v →
    v = .null ∨ v.text ∉ knownValues category) :
    tokens (style.erase category) = tokens style := by
  have hnot : ∀ value, ¬ Counts style category value := by
    intro value hcounts
    obtain ⟨v, hget, hne, rfl⟩ := hcounts.set
    exact (h v hget).elim hne fun hunknown => hunknown hcounts.known
  have hhidden := display_ne_hidden h
  have hdisplay : (style.erase category).get? "display" = some (.str "hidden") ↔
      style.get? "display" = some (.str "hidden") := by
    rw [OrderedMap.get?_erase]
    split
    case isTrue heq => exact iff_of_false (by simp) (hhidden heq.symm)
    case isFalse => rfl
  refine tokens_eq_iff.2 fun category' value => ?_
  by_cases heq : category' = category
  · subst heq
    refine iff_of_false (fun hcounts => ?_) (hnot value)
    obtain ⟨v, hget, -⟩ := hcounts.set
    rw [OrderedMap.get?_erase, if_pos rfl] at hget
    cases hget
  · have hsame : (style.erase category).get? category' = style.get? category' := by
      rw [OrderedMap.get?_erase, if_neg heq]
    exact ⟨Counts.congr hsame fun _ => hdisplay.2, Counts.congr hsame.symm fun _ => hdisplay.1⟩

theorem ofCategory_hidden (hhidden : style.get? "display" = some (.str "hidden"))
    (hlayout : category ∈ layoutCategories) : ofCategory category (tokens style) = [] := by
  rw [ofCategory, List.filter_eq_nil_iff]
  intro token hm hspelled
  obtain ⟨category', value, hcounts, htoken⟩ := mem_tokens_iff.1 hm
  rw [spelled?_of_tokenOf? htoken] at hspelled
  obtain rfl : category' = category := by simpa using hspelled
  exact hcounts.shown ⟨hhidden, hlayout⟩

/-- What a category adds is up to its own value, unless it is left out of one of the styles. -/
theorem ofCategory_congr (hsame : style.get? category = other.get? category)
    (hshown : category ∈ layoutCategories → (style.get? "display" = some (.str "hidden") ↔
      other.get? "display" = some (.str "hidden"))) :
    ofCategory category (tokens style) = ofCategory category (tokens other) := by
  rw [ofCategory_tokens, ofCategory_tokens]
  cases hc : category? category with
  | none => rfl
  | some c =>
    obtain ⟨hm, rfl⟩ := mem_of_category? hc
    have heq : token? style c = token? other c := by
      apply Option.ext
      intro token
      rw [token?_eq_some_iff hm, token?_eq_some_iff hm]
      constructor
      · rintro ⟨value, hcounts, htoken⟩
        exact ⟨value, hcounts.congr hsame fun hl => (hshown hl).2, htoken⟩
      · rintro ⟨value, hcounts, htoken⟩
        exact ⟨value, hcounts.congr hsame.symm fun hl => (hshown hl).1, htoken⟩
    rw [Option.bind_some, Option.bind_some, heq]

theorem written_of_mem_tokens (h : token ∈ tokens style) :
    token ≠ "" ∧ ∀ char ∈ token.toList, isTokenChar char = true := by
  obtain ⟨c, hc, htoken⟩ := List.mem_filterMap.1 h
  obtain ⟨e, he, rfl⟩ := List.mem_map.1 (mem_tokens_of_token? htoken)
  exact written_of_mem c hc e he

theorem words_classText (style : OrderedMap Value) :
    Text.words (classText style) = tokens style := by
  apply Text.words_join
  intro token hm
  obtain ⟨hne, hchars⟩ := written_of_mem_tokens hm
  exact ⟨hne, fun hspace => absurd (hchars _ hspace) (by decide)⟩

/-! ## Styles that cannot be resolved -/

theorem resolve_eq_ok_iff {ts : List String} :
    resolve style = .ok ts ↔ textFault? style = none ∧ ts = tokens style := by
  rw [resolve]
  cases textFault? style <;> simp [eq_comm]

/-- A style is resolved exactly if every value that is looked up has a text. -/
theorem textFault?_eq_none_iff : textFault? style = none ↔
    ∀ c ∈ categories, ∀ v, consulted? style c = some v → v.textFault? = none := by
  simp only [textFault?, List.findSome?_eq_none_iff, Option.bind_eq_none_iff]

theorem consulted?_congr (h : style.Same other) : consulted? style = consulted? other := by
  funext c
  apply Option.ext
  intro v
  rw [consulted?_eq_some_iff, consulted?_eq_some_iff, h, h]

theorem textFault?_congr (h : style.Same other) : textFault? style = textFault? other := by
  rw [textFault?, textFault?, consulted?_congr h]

theorem resolve_congr (h : style.Same other) : resolve style = resolve other := by
  rw [resolve, resolve, textFault?_congr h, tokens_congr h]

theorem className_eq (style : OrderedMap Value) : className style =
    match textFault? style with
    | some fault => .error fault
    | none => .ok (classText style) := by
  rw [className, resolve]
  cases textFault? style <;> rfl

/-- Without an attribute that does not hide the element no other value is looked up than with it. -/
theorem textFault?_erase (hnone : textFault? style = none)
    (hhidden : category = "display" → style.get? "display" ≠ some (.str "hidden")) :
    textFault? (style.erase category) = none := by
  rw [textFault?_eq_none_iff] at hnone ⊢
  intro c hc v hv
  refine hnone c hc v ?_
  obtain ⟨hget, hne, hshown⟩ := consulted?_eq_some_iff.1 hv
  rw [OrderedMap.get?_erase] at hget
  split at hget
  case isTrue => cases hget
  case isFalse =>
    refine consulted?_eq_some_iff.2 ⟨hget, hne, fun hboth => hshown ⟨?_, hboth.2⟩⟩
    rw [OrderedMap.get?_erase, if_neg fun heq => hhidden heq.symm hboth.1]
    exact hboth.1

/-- What a style resolves to does not depend on the order of its attributes.  It is resolved exactly
if every value that is looked up has a text.  The tokens then are in the order of the vocabulary,
one at most for each category.  Nothing shows of what the vocabulary does not know, and of a hidden
element not what lays out its children; what else a category adds is up to its own value.  The pairs
that count can be read from the tokens, and from the words of the class name, and styles in which
the same pairs count resolve to the same. -/
theorem resolve_canonical (style : OrderedMap Value) :
    (∀ other, style.Same other → resolve style = resolve other) ∧
    ((∃ ts, resolve style = .ok ts) ↔
      ∀ c ∈ categories, ∀ v, consulted? style c = some v → v.textFault? = none) ∧
    ∀ ts, resolve style = .ok ts →
      ts.Pairwise Precedes ∧ ts.Nodup ∧
      (∀ category, (ofCategory category ts).length ≤ 1) ∧
      (∀ category, (∀ v, style.get? category = some v →
          v = .null ∨ v.text ∉ knownValues category) →
        resolve (style.erase category) = .ok ts) ∧
      (style.get? "display" = some (.str "hidden") → ∀ category ∈ layoutCategories,
        ofCategory category ts = []) ∧
      (∀ other ts', resolve other = .ok ts' →
        (∀ category, style.get? category = other.get? category →
          (category ∈ layoutCategories → (style.get? "display" = some (.str "hidden") ↔
            other.get? "display" = some (.str "hidden"))) →
          ofCategory category ts = ofCategory category ts') ∧
        (ts = ts' ↔ ∀ category value, Counts style category value ↔ Counts other category value)) ∧
      (∃ text, className style = .ok text ∧ Text.words text = ts) ∧
      ∀ category value, (category, value) ∈ ts.filterMap spelled? ↔
        Counts style category value := by
  refine ⟨fun _ => resolve_congr, ?_, fun ts hresolve => ?_⟩
  · simp only [resolve_eq_ok_iff, exists_and_left, exists_eq, and_true, textFault?_eq_none_iff]
  · obtain ⟨hnone, rfl⟩ := resolve_eq_ok_iff.1 hresolve
    refine ⟨pairwise_precedes style, nodup_tokens style, fun category => ?_,
      fun category hunknown => ?_, fun hhidden _ => ofCategory_hidden hhidden,
      fun other ts' hother => ?_, ⟨classText style, ?_, words_classText style⟩,
      fun _ _ => mem_spelled_iff⟩
    · rw [ofCategory_tokens, Option.length_toList]
      split <;> decide
    · exact resolve_eq_ok_iff.2
        ⟨textFault?_erase hnone (display_ne_hidden hunknown), (tokens_erase hunknown).symm⟩
    · obtain ⟨-, rfl⟩ := resolve_eq_ok_iff.1 hother
      exact ⟨fun _ => ofCategory_congr, tokens_eq_iff⟩
    · rw [className_eq, hnone]

/-- A hidden element whose gap does not show, an attribute that is unknown, and a number that reads
as a known value. -/
theorem resolve_canonical_hidden :
    let style : OrderedMap Value := .ofList [("opacity", .int 25), ("gap", .str "large"),
      ("bogus", .str "x"), ("display", .str "hidden")]
    let other : OrderedMap Value := .ofList [("display", .str "hidden"), ("opacity", .str "25")]
    resolve style = .ok ["hidden", "opacity-25"] ∧ resolve (style.erase "bogus") = resolve style ∧
    ofCategory "gap" ["hidden", "opacity-25"] = [] ∧
    ofCategory "opacity" ["hidden", "opacity-25"] =
      ofCategory "opacity" (tokens (style.erase "display")) ∧
    ∀ category value, Counts style category value ↔ Counts other category value := by
  intro style other
  have hresolve : resolve style = .ok ["hidden", "opacity-25"] := by decide
  obtain ⟨-, -, hcanonical⟩ := resolve_canonical style
  obtain ⟨-, -, -, herase, hhidden, hother, -⟩ := hcanonical _ hresolve
  obtain ⟨hshare, -⟩ := hother (style.erase "display") _ rfl
  obtain ⟨-, hiff⟩ := hother other ["hidden", "opacity-25"] (by decide)
  refine ⟨hresolve, (herase "bogus" ?_).trans hresolve.symm, hhidden rfl "gap" (by decide),
    hshare "opacity" (by decide) (fun hlayout => absurd hlayout (by decide)), hiff.1 rfl⟩
  rintro v ⟨⟩
  exact Or.inr (by decide)

/-- An integer of too many digits is no value of the first category, and yet it is not skipped. -/
theorem resolve_canonical_overlong :
    resolve (.ofList [("display", .int Number.overlong)]) = .error .longInteger := by
  have hfault : textFault? (.ofList [("display", .int Number.overlong)]) =
      some .longInteger := by
    obtain ⟨c, rest, hcategories, hname⟩ : ∃ c rest, categories = c :: rest ∧ c.name = "display" :=
      ⟨_, _, rfl, rfl⟩
    have hfirst : consulted? (.ofList [("display", .int Number.overlong)]) c =
        some (.int Number.overlong) :=
      consulted?_eq_some_iff.2 ⟨by rw [hname]; rfl, nofun, fun h => nomatch h.1⟩
    rw [textFault?, hcategories, List.findSome?_cons, hfirst, Option.bind_some,
      Value.textFault?_overlong]
  rw [resolve, hfault]

end Style

end PageBuilder
