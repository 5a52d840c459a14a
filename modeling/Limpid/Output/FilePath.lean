import Mathlib.Data.List.Basic
import Limpid.Dsl.Eval
import Limpid.Metrics.Schema

/-!
# The path of the file output

`render_path_in` of `modules/output/file.rs` (on Unix) and the check of `write_payload`.

A template is seen as a list of symbols: the characters of its literals, and one symbol for each
interpolation, with the string that it evaluated to (`Evaluates`).  Cut at the literal slashes it
has the components that its author sees; the rendered path has the same components with the values
filled in (`splitOn_render`), because no slash survives in a value.

What can still go wrong in a component is a value `.` that stands alone in it: the passes refuse an
empty value and a component `..`, and let that one through.  The path keeps its shape exactly when
there is none (`keepsShape_iff`).
-/

namespace Limpid.Output.FilePath

open Dsl (Runtime Value Expr TemplateFragment Eval)

/-! ## Rendering -/

/-- Pass 1: slashes become underscores. -/
def sanitizePathComponent (s : List Char) : List Char :=
  s.map fun c => if c = '/' ∨ c = '\\' then '_' else c

/-- `check_no_traversal`: a component of two dots. -/
def hasTraversal (s : List Char) : Bool := (s.splitOn '/').any (· = ['.', '.'])

section Rendering

variable {World : Type} (rt : Runtime) (event : BorrowedEvent)
  (call : Option String → String → List Value → Eval World Value)

/-- Pass 2. -/
def checkNoTraversal (s : List Char) : Eval World Unit :=
  if hasTraversal s then
    Eval.bail (s!"output file: rendered path contains a `..` traversal component: " ++
      s!"{rt.debug (String.ofList s)}. `..` is rejected rather than silently rewritten — sanitise " ++
      "upstream (regex_replace, a process body) or pin the value before interpolation.")
  else Eval.ok ()

/-- The loop over the fragments, with what has been rendered so far. -/
def renderFragments (out : List Char) : List TemplateFragment → Eval World (List Char)
  | [] => Eval.ok out
  | .literal s :: rest => renderFragments (out ++ s.toList) rest
  | .interp expr :: rest => do
    let value ← Dsl.evalExpr rt event call [] expr
    let rendered := Dsl.valueToString rt value
    if rendered.toList = [] then
      Eval.bail ("output file: interpolation evaluated to empty string (would create surprise " ++
        "path like `/foo//bar` or `/foo/.log`)")
    else renderFragments (out ++ sanitizePathComponent rendered.toList) rest

/-- The rendered path, and whether it is dynamic. -/
def renderPathIn (debug : Expr → String) (path : Expr) : Eval World (List Char × Bool) :=
  match path with
  | .stringLit s => Eval.ok (s.toList, false)
  | .template fragments => do
    let out ← renderFragments rt event call [] fragments
    checkNoTraversal rt out
    -- pass 3
    if out = [] then
      Eval.bail "output file: rendered path is empty (template produced no content)"
    else if out.getLast? = some '/' then
      Eval.bail ("output file: rendered path ends with `/` (no filename component): " ++
        rt.debug (String.ofList out))
    else return (out, true)
  | other => Eval.bail ("output file: unsupported path expression shape: " ++ debug other)

/-- The check of `write_payload`, for static paths. -/
def checkComponents (resolved : List Char) : Except String Unit :=
  if hasTraversal resolved then .error s!"path traversal rejected: {String.ofList resolved}"
  else .ok ()

end Rendering

/-! ## Templates -/

/-- A character of a literal, or an interpolation and the string that it evaluated to. -/
inductive Symbol where
  | char (c : Char)
  | value (raw : List Char)
deriving DecidableEq

namespace Symbol

/-- The symbol is a separator. -/
def isSlash : Symbol → Bool
  | char c => c = '/'
  | value _ => false

/-- The symbol comes from an interpolation. -/
def isValue : Symbol → Bool
  | char _ => false
  | value _ => true

/-- With the value filled in. -/
def text : Symbol → List Char
  | char c => [c]
  | value raw => sanitizePathComponent raw

/-- With a letter in its place. -/
def plain : Symbol → List Char
  | char c => [c]
  | value _ => ['x']

end Symbol

/-- The fragments of a path template. -/
def fragmentsOf : Expr → Option (List TemplateFragment)
  | .stringLit s => some [.literal s]
  | .template fragments => some fragments
  | _ => none

/-- What the interpolations of a template evaluate to, one after the other. -/
inductive Evaluates {World : Type} (rt : Runtime) (event : BorrowedEvent)
    (call : Option String → String → List Value → Eval World Value) :
    World → List TemplateFragment → List Symbol → Prop
  | nil (world : World) : Evaluates rt event call world [] []
  | literal {world : World} {rest : List TemplateFragment} {symbols : List Symbol} (s : String)
      (h : Evaluates rt event call world rest symbols) :
      Evaluates rt event call world (.literal s :: rest) (s.toList.map Symbol.char ++ symbols)
  | interp {world world' : World} {rest : List TemplateFragment} {symbols : List Symbol}
      {expr : Expr} {value : Value}
      (heval : Dsl.evalExpr rt event call [] expr world = some (.ok value, world'))
      (h : Evaluates rt event call world' rest symbols) :
      Evaluates rt event call world (.interp expr :: rest)
        (.value (Dsl.valueToString rt value).toList :: symbols)

/-- The components between the slashes of the literals. -/
def components (symbols : List Symbol) : List (List Symbol) := symbols.splitOnP Symbol.isSlash

/-- The components in front of the first that holds an interpolation. -/
def literalPrefix (symbols : List Symbol) : List (List Char) :=
  ((components symbols).takeWhile fun component => !component.any Symbol.isValue).map
    (List.flatMap Symbol.text)

/-- Lexical normalisation. -/
def normalise (path : List (List Char)) : List (List Char) :=
  path.foldl (fun stack component =>
    if component = [] ∨ component = ['.'] then stack
    else if component = ['.', '.'] then stack.dropLast
    else stack ++ [component]) []

/-- The path has the shape that the literals express. -/
structure KeepsShape (symbols : List Symbol) (path : List Char) : Prop where
  count : (path.splitOn '/').length = ((symbols.flatMap Symbol.plain).splitOn '/').length
  filled : path.splitOn '/' = (components symbols).map (List.flatMap Symbol.text)
  proper : ∀ component ∈ components symbols, component.any Symbol.isValue →
    component.flatMap Symbol.text ∉ [[], ['.'], ['.', '.']]
  depth : (normalise (path.splitOn '/')).length =
    (normalise ((symbols.flatMap Symbol.plain).splitOn '/')).length
  under : normalise (literalPrefix symbols) <+: normalise (path.splitOn '/')

/-- An interpolation that is alone between two slashes, or an end of the template, evaluated to a
dot. -/
def LoneDot (symbols : List Symbol) : Prop := [Symbol.value ['.']] ∈ components symbols

/-! ## Components -/

section Components

/-- Text with no separator in it goes before the first part. -/
theorem splitOn_append_of_notMem {α : Type} [DecidableEq α] {sep : α} {text : List α}
    (h : sep ∉ text) (rest : List α) :
    (text ++ rest).splitOn sep = (rest.splitOn sep).modifyHead (text ++ ·) := by
  induction text with
  | nil =>
      cases hrest : rest.splitOn sep with
      | nil => exact absurd hrest (List.splitOn_ne_nil sep rest)
      | cons first others => simp [hrest]
  | cons c text ih =>
      obtain ⟨hc, htext⟩ := not_or.mp (fun hmem => h (List.mem_cons.mpr hmem))
      rw [List.cons_append, List.splitOn_cons_eq_if_modifyHead,
        if_neg (by simpa using Ne.symm hc), ih htext]
      cases hrest : rest.splitOn sep with
      | nil => exact absurd hrest (List.splitOn_ne_nil sep rest)
      | cons first others => rfl

/-- **A path has the components of its template**, whatever stands for the interpolations, as long
as it has no slash. -/
theorem splitOn_flatMap {f : Symbol → List Char} (hchar : ∀ c, f (.char c) = [c])
    (hvalue : ∀ raw, '/' ∉ f (.value raw)) (symbols : List Symbol) :
    (symbols.flatMap f).splitOn '/' = (components symbols).map (List.flatMap f) := by
  induction symbols with
  | nil => rfl
  | cons symbol symbols ih =>
      rw [List.flatMap_cons, components, List.splitOnP_cons_eq_if_modifyHead]
      cases symbol with
      | char c =>
          rw [hchar, List.singleton_append, List.splitOn_cons_eq_if_modifyHead, ih]
          by_cases hc : c = '/'
          · rw [if_pos (by simpa using hc), if_pos (by simpa [Symbol.isSlash] using hc)]
            rfl
          · rw [if_neg (by simpa using hc), if_neg (by simpa [Symbol.isSlash] using hc)]
            rw [components]
            cases hsplit : symbols.splitOnP Symbol.isSlash with
            | nil => rfl
            | cons first others => simp [hchar]
      | value raw =>
          rw [splitOn_append_of_notMem (hvalue raw), ih, if_neg (by simp [Symbol.isSlash])]
          rw [components]
          cases hsplit : symbols.splitOnP Symbol.isSlash with
          | nil => rfl
          | cons first others => simp

theorem slash_notMem_sanitize (raw : List Char) : '/' ∉ sanitizePathComponent raw := by
  rw [sanitizePathComponent, List.mem_map]
  rintro ⟨c, -, hc⟩
  split_ifs at hc with hslash
  · exact absurd hc (by decide)
  · exact hslash (.inl hc)

theorem splitOn_render (symbols : List Symbol) :
    (symbols.flatMap Symbol.text).splitOn '/' =
      (components symbols).map (List.flatMap Symbol.text) :=
  splitOn_flatMap (fun _ => rfl) slash_notMem_sanitize symbols

theorem splitOn_plain (symbols : List Symbol) :
    (symbols.flatMap Symbol.plain).splitOn '/' =
      (components symbols).map (List.flatMap Symbol.plain) :=
  splitOn_flatMap (fun _ => rfl) (fun raw => (by decide : '/' ∉ ['x'])) symbols

/-- A component is made of symbols of the template. -/
theorem mem_of_mem_components {symbols component : List Symbol} (h : component ∈ components symbols)
    {symbol : Symbol} (hsymbol : symbol ∈ component) : symbol ∈ symbols := by
  induction symbols generalizing component with
  | nil =>
      obtain rfl := List.mem_singleton.mp h
      exact hsymbol
  | cons first symbols ih =>
      rw [components, List.splitOnP_cons_eq_if_modifyHead] at h
      split_ifs at h
      · rcases List.mem_cons.mp h with rfl | h
        · exact absurd hsymbol List.not_mem_nil
        · exact List.mem_cons_of_mem _ (ih h hsymbol)
      · cases hsplit : symbols.splitOnP Symbol.isSlash with
        | nil => exact absurd hsplit (List.splitOnP_ne_nil _ _)
        | cons part others =>
            rw [components, hsplit] at ih
            rw [hsplit] at h
            rcases List.mem_cons.mp h with rfl | h
            · rcases List.mem_cons.mp hsymbol with rfl | hsymbol
              · exact List.mem_cons_self
              · exact List.mem_cons_of_mem _ (ih List.mem_cons_self hsymbol)
            · exact List.mem_cons_of_mem _ (ih (List.mem_cons_of_mem _ h) hsymbol)

end Components

/-! ## Evaluation -/

section Evaluation

variable {World : Type} {rt : Runtime} {event : BorrowedEvent}
  {call : Option String → String → List Value → Eval World Value}

theorem text_literal (s : List Char) : (s.map Symbol.char).flatMap Symbol.text = s := by
  induction s with
  | nil => rfl
  | cons c s ih => rw [List.map_cons, List.flatMap_cons, ih]; rfl

theorem plain_literal (s : List Char) : (s.map Symbol.char).flatMap Symbol.plain = s := by
  induction s with
  | nil => rfl
  | cons c s ih => rw [List.map_cons, List.flatMap_cons, ih]; rfl

/-- What a step of an evaluation gives to the next. -/
theorem exists_of_bind_eq_ok {α β : Type} {x : Eval World α} {f : α → Eval World β}
    {world last : World}
    {b : β} (h : (x >>= f) world = some (.ok b, last)) :
    ∃ a next, x world = some (.ok a, next) ∧ f a next = some (.ok b, last) := by
  change Eval.bind x f world = _ at h
  unfold Eval.bind at h
  split at h
  · exact nomatch h
  · exact nomatch h
  · exact ⟨_, _, ‹_›, h⟩

/-- **A template that is rendered is rendered from the values of its interpolations**, none of which
is empty. -/
theorem renderFragments_ok {fragments : List TemplateFragment} {out text : List Char}
    {world last : World}
    (h : renderFragments rt event call out fragments world = some (.ok text, last)) :
    ∃ symbols, Evaluates rt event call world fragments symbols ∧
      text = out ++ symbols.flatMap Symbol.text ∧ Symbol.value [] ∉ symbols := by
  induction fragments generalizing out world with
  | nil =>
      obtain ⟨hout, -⟩ := Prod.mk.inj (Option.some.inj h)
      obtain rfl := Except.ok.inj hout
      exact ⟨[], .nil world, (List.append_nil _).symm, List.not_mem_nil⟩
  | cons fragment rest ih =>
      cases fragment with
      | literal s =>
          obtain ⟨symbols, hsymbols, rfl, hempty⟩ := ih h
          refine ⟨_, .literal s hsymbols, ?_, ?_⟩
          · rw [List.flatMap_append, text_literal, List.append_assoc]
          · simpa using hempty
      | interp expr =>
          obtain ⟨value, next, heval, h⟩ := exists_of_bind_eq_ok h
          dsimp only at h
          split_ifs at h with hempty
          · exact nomatch h
          · obtain ⟨symbols, hsymbols, rfl, hrest⟩ := ih h
            refine ⟨_, .interp heval hsymbols, ?_, ?_⟩
            · rw [List.flatMap_cons, Symbol.text, List.append_assoc]
            · rw [List.mem_cons, not_or]
              exact ⟨fun heq => hempty (Symbol.value.inj heq).symm, hrest⟩

/-- What the passes let through. -/
theorem renderPathIn_ok {debug : Expr → String} {path : Expr} {text : List Char} {dynamic : Bool}
    {world last : World}
    (h : renderPathIn rt event call debug path world = some (.ok (text, dynamic), last)) :
    ∃ fragments symbols, fragmentsOf path = some fragments ∧
      Evaluates rt event call world fragments symbols ∧ text = symbols.flatMap Symbol.text ∧
      Symbol.value [] ∉ symbols ∧
      (hasTraversal text = false ∨ ∀ symbol ∈ symbols, symbol.isValue = false) := by
  cases path with
  | stringLit s =>
      obtain ⟨hout, -⟩ := Prod.mk.inj (Option.some.inj h)
      obtain ⟨rfl, -⟩ := Prod.mk.inj (Except.ok.inj hout)
      refine ⟨_, _, rfl, .literal s (.nil world), ?_, by simp, .inr ?_⟩
      · rw [List.append_nil, text_literal]
      · intro symbol hsymbol
        rw [List.append_nil] at hsymbol
        obtain ⟨c, -, rfl⟩ := List.mem_map.mp hsymbol
        rfl
  | template fragments =>
      obtain ⟨out, next, hrender, h⟩ := exists_of_bind_eq_ok h
      obtain ⟨⟨⟩, next', hcheck, h⟩ := exists_of_bind_eq_ok h
      obtain ⟨symbols, hsymbols, htext, hempty⟩ := renderFragments_ok hrender
      have hclean : hasTraversal out = false := by
        unfold checkNoTraversal at hcheck
        split_ifs at hcheck with htraversal
        · exact nomatch hcheck
        · exact Bool.eq_false_iff.mpr htraversal
      split_ifs at h
      · exact nomatch h
      · exact nomatch h
      · obtain ⟨hout, -⟩ := Prod.mk.inj (Option.some.inj h)
        obtain ⟨rfl, -⟩ := Prod.mk.inj (Except.ok.inj hout)
        exact ⟨fragments, symbols, rfl, hsymbols, htext, hempty, .inl hclean⟩
  | _ => exact nomatch h

end Evaluation

/-! ## Shape -/

section Shape

variable {symbols : List Symbol}

/-- The component is empty or a dot. -/
def IsSpecial (component : List Char) : Prop := component = [] ∨ component = ['.']

instance (component : List Char) : Decidable (IsSpecial component) :=
  inferInstanceAs (Decidable (_ ∨ _))

/-- Without `..` normalisation leaves out what is empty or a dot. -/
theorem normalise_eq_filter {path : List (List Char)} (h : ['.', '.'] ∉ path) :
    normalise path = path.filter fun component => decide (¬ IsSpecial component) := by
  have hfold : ∀ stack : List (List Char), path.foldl (fun stack component =>
      if component = [] ∨ component = ['.'] then stack
      else if component = ['.', '.'] then stack.dropLast
      else stack ++ [component]) stack =
      stack ++ path.filter fun component => decide (¬ IsSpecial component) := by
    induction path with
    | nil => exact fun stack => (List.append_nil stack).symm
    | cons component path ih =>
        obtain ⟨hcomponent, hpath⟩ := not_or.mp (fun hmem => h (List.mem_cons.mpr hmem))
        intro stack
        rw [List.foldl_cons, ih hpath]
        by_cases hspecial : component = [] ∨ component = ['.']
        · have hdrop : IsSpecial component := hspecial
          rw [if_pos hspecial, List.filter_cons_of_neg (by simpa using hdrop)]
        · have hkeep : ¬ IsSpecial component := hspecial
          rw [if_neg hspecial, if_neg (Ne.symm hcomponent),
            List.filter_cons_of_pos (by simpa using hkeep), List.append_assoc]
          rfl
  exact hfold []

/-- A component with an interpolation, and a letter in its place, is nothing special. -/
theorem plain_proper {component : List Symbol} (h : component.any Symbol.isValue) :
    'x' ∈ component.flatMap Symbol.plain := by
  obtain ⟨symbol, hmem, hvalue⟩ := List.any_eq_true.mp h
  cases symbol with
  | char c => exact nomatch hvalue
  | value raw => exact List.mem_flatMap.mpr ⟨_, hmem, List.mem_singleton_self _⟩

/-- A component without one is what its literals say. -/
theorem text_eq_plain {component : List Symbol} (h : component.any Symbol.isValue = false) :
    component.flatMap Symbol.text = component.flatMap Symbol.plain := by
  refine List.flatMap_congr fun symbol hmem => ?_
  have hvalue := List.any_eq_false.mp h symbol hmem
  cases symbol with
  | char c => rfl
  | value raw => exact absurd rfl hvalue

theorem length_text_pos {symbol : Symbol} (h : symbol ≠ .value []) : 0 < symbol.text.length := by
  cases symbol with
  | char c => exact Nat.one_pos
  | value raw =>
      rw [Symbol.text, sanitizePathComponent, List.length_map]
      exact List.length_pos_of_ne_nil fun hraw => h (by rw [hraw])

/-- Only a dot is written as a dot. -/
theorem eq_dot_of_sanitize {raw : List Char} (h : sanitizePathComponent raw = ['.']) :
    raw = ['.'] := by
  rw [sanitizePathComponent, List.map_eq_singleton_iff] at h
  obtain ⟨c, rfl, hc⟩ := h
  split_ifs at hc
  · exact absurd hc (by decide)
  · rw [hc]

/-- **A component with an interpolation is never empty, and a dot only where the interpolation is
alone.** -/
theorem text_proper {component : List Symbol} (hempty : Symbol.value [] ∉ component)
    (hvalue : component.any Symbol.isValue) (hlone : component ≠ [.value ['.']]) :
    ¬ IsSpecial (component.flatMap Symbol.text) := by
  obtain ⟨symbol, hmem, hsymbol⟩ := List.any_eq_true.mp hvalue
  obtain ⟨before, after, rfl⟩ := List.append_of_mem hmem
  have hlength : ∀ part : List Symbol, Symbol.value [] ∉ part → part ≠ [] →
      0 < (part.flatMap Symbol.text).length := by
    intro part hpart hne
    obtain ⟨first, rest, rfl⟩ := List.exists_cons_of_ne_nil hne
    have hpos := length_text_pos fun heq => hpart (heq ▸ List.mem_cons_self)
    rw [List.flatMap_cons, List.length_append]
    omega
  have hpos := length_text_pos fun heq => hempty (heq ▸ hmem)
  rw [List.flatMap_append, List.flatMap_cons]
  rintro (hnil | hdot)
  · have hzero := congrArg List.length hnil
    simp only [List.length_append, List.length_nil] at hzero
    omega
  · have hone := congrArg List.length hdot
    simp only [List.length_append, List.length_cons, List.length_nil] at hone
    -- one character is left for all of the component
    obtain rfl : before = [] := by
      by_contra hne
      have hbefore := hlength before (fun h => hempty (List.mem_append_left _ h)) hne
      omega
    obtain rfl : after = [] := by
      by_contra hne
      have hafter := hlength after (fun h => hempty (List.mem_append_right _
        (List.mem_cons_of_mem _ h))) hne
      omega
    cases symbol with
    | char c => exact nomatch hsymbol
    | value raw =>
        have hraw : sanitizePathComponent raw = ['.'] := by simpa [Symbol.text] using hdot
        rw [eq_dot_of_sanitize hraw] at hlone
        exact hlone rfl

theorem literalPrefix_prefix (symbols : List Symbol) :
    literalPrefix symbols <+: (components symbols).map (List.flatMap Symbol.text) :=
  (List.takeWhile_prefix _).map _

/-- A template without interpolations is its own path. -/
theorem keepsShape_of_literal (h : ∀ symbol ∈ symbols, symbol.isValue = false) :
    KeepsShape symbols (symbols.flatMap Symbol.text) := by
  have hnone : ∀ component ∈ components symbols, component.any Symbol.isValue = false := by
    intro component hcomponent
    refine List.any_eq_false.mpr fun symbol hsymbol => ?_
    rw [h symbol (mem_of_mem_components hcomponent hsymbol)]
    exact Bool.false_ne_true
  have htext : symbols.flatMap Symbol.text = symbols.flatMap Symbol.plain :=
    text_eq_plain (List.any_eq_false.mpr fun symbol hsymbol => by simp [h symbol hsymbol])
  have hliteral : literalPrefix symbols = (components symbols).map (List.flatMap Symbol.text) := by
    rw [literalPrefix, List.takeWhile_eq_self_iff.mpr]
    intro component hcomponent
    rw [hnone component hcomponent]
    rfl
  refine ⟨?_, splitOn_render symbols, fun component hcomponent hvalue => ?_, ?_, ?_⟩
  · rw [htext]
  · rw [hnone component hcomponent] at hvalue
    exact nomatch hvalue
  · rw [htext]
  · rw [hliteral, splitOn_render]

/-- **What passes keeps its shape when no interpolation is a dot on its own.** -/
theorem keepsShape_of_clean (hempty : Symbol.value [] ∉ symbols)
    (hclean : hasTraversal (symbols.flatMap Symbol.text) = false) (hlone : ¬ LoneDot symbols) :
    KeepsShape symbols (symbols.flatMap Symbol.text) := by
  have hproper : ∀ component ∈ components symbols, component.any Symbol.isValue →
      ¬ IsSpecial (component.flatMap Symbol.text) := fun component hcomponent hvalue =>
    text_proper (fun h => hempty (mem_of_mem_components hcomponent h)) hvalue
      fun heq => hlone (show [_] ∈ _ from heq ▸ hcomponent)
  have hup : ∀ component ∈ components symbols, component.flatMap Symbol.text ≠ ['.', '.'] := by
    intro component hcomponent heq
    rw [hasTraversal, splitOn_render, List.any_map, List.any_eq_false] at hclean
    exact hclean component hcomponent (by simpa using heq)
  have hplain : ∀ component ∈ components symbols,
      component.flatMap Symbol.plain ≠ ['.', '.'] ∧
      (IsSpecial (component.flatMap Symbol.plain) ↔
        IsSpecial (component.flatMap Symbol.text)) := by
    intro component hcomponent
    cases hvalue : component.any Symbol.isValue with
    | false =>
        rw [← text_eq_plain hvalue]
        exact ⟨hup component hcomponent, Iff.rfl⟩
    | true =>
        have hletter := plain_proper hvalue
        refine ⟨fun heq => ?_, iff_of_false ?_ (hproper component hcomponent hvalue)⟩
        · rw [heq] at hletter
          exact absurd hletter (by decide)
        · rintro (heq | heq)
          · rw [heq] at hletter
            exact absurd hletter (by decide)
          · rw [heq] at hletter
            exact absurd hletter (by decide)
  have hnoUp : ['.', '.'] ∉ (components symbols).map (List.flatMap Symbol.text) := by
    rw [List.mem_map]
    rintro ⟨component, hcomponent, heq⟩
    exact hup component hcomponent heq
  have hnoUp' : ['.', '.'] ∉ (components symbols).map (List.flatMap Symbol.plain) := by
    rw [List.mem_map]
    rintro ⟨component, hcomponent, heq⟩
    exact (hplain component hcomponent).1 heq
  refine ⟨?_, splitOn_render symbols, fun component hcomponent hvalue => ?_, ?_, ?_⟩
  · rw [splitOn_render, splitOn_plain, List.length_map, List.length_map]
  · have hspecial := hproper component hcomponent hvalue
    have htwo := hup component hcomponent
    simp only [IsSpecial, not_or] at hspecial
    simp [hspecial.1, hspecial.2, htwo]
  · -- the same components are left out of both
    rw [splitOn_render, splitOn_plain, normalise_eq_filter hnoUp, normalise_eq_filter hnoUp',
      List.filter_map, List.filter_map, List.length_map, List.length_map]
    refine congrArg List.length (List.filter_congr fun component hcomponent => ?_)
    exact decide_eq_decide.mpr (not_congr (hplain component hcomponent).2.symm)
  · have hliteral := literalPrefix_prefix symbols
    rw [splitOn_render, normalise_eq_filter hnoUp,
      normalise_eq_filter fun hmem => hnoUp (hliteral.mem hmem)]
    exact hliteral.filter _

/-- **A rendered path keeps the shape of its template exactly when no interpolation that is alone in
its component evaluates to a dot.** -/
theorem keepsShape_iff {World : Type} {rt : Runtime} {event : BorrowedEvent}
    {call : Option String → String → List Value → Eval World Value} {debug : Expr → String}
    {path : Expr} {text : List Char} {dynamic : Bool} {world last : World}
    (h : renderPathIn rt event call debug path world = some (.ok (text, dynamic), last)) :
    ∃ fragments symbols, fragmentsOf path = some fragments ∧
      Evaluates rt event call world fragments symbols ∧
      (KeepsShape symbols text ↔ ¬ LoneDot symbols) := by
  obtain ⟨fragments, symbols, hpath, hsymbols, rfl, hempty, hclean⟩ := renderPathIn_ok h
  refine ⟨fragments, symbols, hpath, hsymbols, fun hshape hlone => ?_, fun hlone => ?_⟩
  · exact hshape.proper _ hlone rfl (by decide)
  · rcases hclean with hclean | hliteral
    · exact keepsShape_of_clean hempty hclean hlone
    · exact keepsShape_of_literal hliteral

/-- The values of the interpolations are determined. -/
theorem Evaluates.unique {World : Type} {rt : Runtime} {event : BorrowedEvent}
    {call : Option String → String → List Value → Eval World Value} {world : World}
    {fragments : List TemplateFragment} {symbols other : List Symbol}
    (h : Evaluates rt event call world fragments symbols)
    (h' : Evaluates rt event call world fragments other) : symbols = other := by
  induction h generalizing other with
  | nil => cases h'; rfl
  | literal s _ ih =>
      cases h' with
      | literal _ hrest => rw [ih hrest]
  | interp heval _ ih =>
      cases h' with
      | interp heval' hrest =>
          obtain ⟨hvalue, rfl⟩ := Prod.mk.inj (Option.some.inj (heval.symm.trans heval'))
          obtain rfl := Except.ok.inj hvalue
          rw [ih hrest]

end Shape

/-! ## A path and an event -/

section Instance

open Metrics (twoFloats)

/-- `/var/log/${workspace.v}`. -/
def logTemplate : Expr :=
  .template [.literal "/var/log/", .interp (.ident ["workspace", "v"])]

/-- An event with a text in its workspace. -/
def eventWith (v : String) : BorrowedEvent :=
  { key := 0, receivedAt := 0, source := .v4 .localhost 514, ingress := [], egress := [],
    workspace := [("v", .string v)], ltpStamps := none }

/-- Every call gives null. -/
def noCall : Option String → String → List Value → Eval Unit Value := fun _ _ _ => Eval.ok .null

theorem render_logTemplate :
    renderPathIn twoFloats (eventWith "a/b") noCall (fun _ => "") logTemplate () =
      some (.ok ("/var/log/a_b".toList, true), ()) := by
  rfl

theorem keepsShape_logTemplate :
    ∃ fragments symbols, fragmentsOf logTemplate = some fragments ∧
      Evaluates twoFloats (eventWith "a/b") noCall () fragments symbols ∧
      (KeepsShape symbols "/var/log/a_b".toList ↔ ¬ LoneDot symbols) :=
  keepsShape_iff render_logTemplate

/-- What a dot in the workspace is written to. -/
def dotSymbols : List Symbol := "/var/log/".toList.map Symbol.char ++ [.value ['.']]

theorem dot_loses_shape :
    renderPathIn twoFloats (eventWith ".") noCall (fun _ => "") logTemplate () =
        some (.ok ("/var/log/.".toList, true), ()) ∧
      Evaluates twoFloats (eventWith ".") noCall ()
        [.literal "/var/log/", .interp (.ident ["workspace", "v"])] dotSymbols ∧
      ¬ KeepsShape dotSymbols "/var/log/.".toList := by
  refine ⟨by rfl, ?_, fun h => ?_⟩
  · have hvalue : Dsl.evalExpr twoFloats (eventWith ".") noCall [] (.ident ["workspace", "v"]) () =
        some (.ok (.string "."), ()) := by rfl
    exact .literal "/var/log/" (.interp hvalue (.nil ()))
  · exact h.proper [.value ['.']] (by decide) rfl (by decide)

end Instance

end Limpid.Output.FilePath
