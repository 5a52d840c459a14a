import Mathlib.Data.Char
import Mathlib.Data.List.Nodup
import Mathlib.Data.List.Sort
import Mathlib.Data.List.TakeWhile
import Mathlib.Data.String.Basic

/-!
# The text exposition format

A reader of the metrics exposition text, version 0.0.4, by its grammar.  A text is lines that each
end with a line feed.  A line is empty, a comment, the help of a family, the type of a family, or a
sample: a name, labels in braces and a value, and perhaps a timestamp.  Blanks and tabs separate
tokens.

The lines of a family stand together: its help and its type, each at most once, and then its
samples.  A family of a histogram or a summary takes samples under suffixes of its name.  A family
does not come twice.
-/

namespace Limpid.Exposition

/-! ## Tokens -/

/-- A space or a tab. -/
def isBlank (c : Char) : Bool := c = ' ' || c = '\t'

/-- The text after its blanks. -/
def skipBlanks (text : List Char) : List Char := text.dropWhile isBlank

/-- The first character of a metric name. -/
def isNameStart (c : Char) : Bool := c.isAlpha || c = '_' || c = ':'

/-- A later character of a metric name. -/
def isNameChar (c : Char) : Bool := c.isAlphanum || c = '_' || c = ':'

/-- The first character of a label name. -/
def isLabelStart (c : Char) : Bool := c.isAlpha || c = '_'

/-- A later character of a label name. -/
def isLabelChar (c : Char) : Bool := c.isAlphanum || c = '_'

/-- The name that a text begins with. -/
def takeName (start char : Char → Bool) : List Char → Option (String × List Char)
  | [] => none
  | c :: rest =>
    if start c then some (String.ofList (c :: rest.takeWhile char), rest.dropWhile char) else none

/-- Everything up to the next blank. -/
def takeToken (text : List Char) : List Char × List Char :=
  (text.takeWhile (!isBlank ·), text.dropWhile (!isBlank ·))

/-- The text of a help line. -/
def unescapeHelp : List Char → Option (List Char)
  | [] => some []
  | '\\' :: '\\' :: rest => ('\\' :: ·) <$> unescapeHelp rest
  | '\\' :: 'n' :: rest => ('\n' :: ·) <$> unescapeHelp rest
  | '\\' :: _ => none
  | c :: rest => (c :: ·) <$> unescapeHelp rest

/-- A label value, and what comes after the quote that ends it. -/
def readLabelValue : List Char → Option (List Char × List Char)
  | [] => none
  | '"' :: rest => some ([], rest)
  | '\\' :: '\\' :: rest => (fun (value, rest) => ('\\' :: value, rest)) <$> readLabelValue rest
  | '\\' :: '"' :: rest => (fun (value, rest) => ('"' :: value, rest)) <$> readLabelValue rest
  | '\\' :: 'n' :: rest => (fun (value, rest) => ('\n' :: value, rest)) <$> readLabelValue rest
  | '\\' :: _ => none
  | c :: rest => (fun (value, rest) => (c :: value, rest)) <$> readLabelValue rest

/-! ## Lines -/

/-- A label and its value. -/
abbrev Label := String × String

/-- A sample line. -/
structure Sample where
  name : String
  labels : List Label
  value : String
deriving DecidableEq

/-- What a `# TYPE` line declares. -/
inductive Kind where
  | counter | gauge | histogram | summary | untyped
deriving DecidableEq

/-- A line of the text. -/
inductive Line where
  | empty
  | comment
  | help (name text : String)
  | type (name : String) (kind : Kind)
  | sample (sample : Sample)

/-- A name, an equals sign and a value in quotes. -/
def readLabel (text : List Char) : Option (Label × List Char) := do
  let (name, rest) ← takeName isLabelStart isLabelChar text
  match skipBlanks rest with
  | '=' :: rest =>
    match skipBlanks rest with
    | '"' :: rest => do
      let (value, rest) ← readLabelValue rest
      some ((name, String.ofList value), rest)
    | _ => none
  | _ => none

/-- The labels behind an open brace, and what comes after the closing one.  No line has more labels
than the fuel. -/
def readLabels : ℕ → List Char → Option (List Label × List Char)
  | 0, _ => none
  | fuel + 1, text =>
    match skipBlanks text with
    | '}' :: rest => some ([], rest)
    | text => do
      let (label, rest) ← readLabel text
      match skipBlanks rest with
      | ',' :: rest => do
        let (labels, rest) ← readLabels fuel rest
        some (label :: labels, rest)
      | '}' :: rest => some ([label], rest)
      | _ => none

/-- The labels of a sample, if there are any. -/
def readLabelSet (text : List Char) : Option (List Label × List Char) :=
  match text with
  | '{' :: rest => readLabels rest.length rest
  | text => some ([], text)

/-- An optional sign, then digits. -/
def isTimestamp (text : List Char) : Bool :=
  match text with
  | '-' :: digits => !digits.isEmpty && digits.all Char.isDigit
  | digits => !digits.isEmpty && digits.all Char.isDigit

/-- The order of label sets: they are listed by the names. -/
def sortLabels (labels : List Label) : List Label :=
  labels.insertionSort (Prod.Lex (· < ·) (· ≤ ·))

/-- A name, labels in braces, a value and maybe a timestamp. -/
def readSample (text : List Char) : Option Sample := do
  let (name, rest) ← takeName isNameStart isNameChar text
  let (labels, rest) ← readLabelSet (skipBlanks rest)
  let (value, rest) := takeToken (skipBlanks rest)
  let (timestamp, rest) := takeToken (skipBlanks rest)
  if value ≠ [] ∧ (labels.map Prod.fst).Nodup ∧ (timestamp = [] ∨ isTimestamp timestamp) ∧
      skipBlanks rest = [] then some ⟨name, sortLabels labels, String.ofList value⟩ else none

/-- The word of a `# TYPE` line. -/
def readKind (text : String) : Option Kind :=
  if text = "counter" then some .counter
  else if text = "gauge" then some .gauge
  else if text = "histogram" then some .histogram
  else if text = "summary" then some .summary
  else if text = "untyped" then some .untyped
  else none

/-- What comes after a number sign. -/
def readComment (text : List Char) : Option Line :=
  let (keyword, rest) := takeToken (skipBlanks text)
  if keyword = "HELP".toList then do
    let (name, rest) ← takeName isNameStart isNameChar (skipBlanks rest)
    let text ← unescapeHelp (skipBlanks rest)
    some (.help name (String.ofList text))
  else if keyword = "TYPE".toList then do
    let (name, rest) ← takeName isNameStart isNameChar (skipBlanks rest)
    let (kind, rest) := takeToken (skipBlanks rest)
    let kind ← readKind (String.ofList kind)
    if skipBlanks rest = [] then some (.type name kind) else none
  else some .comment

/-- A line is a comment, a declaration or a sample. -/
def readLine (line : List Char) : Option Line :=
  match skipBlanks line with
  | [] => some .empty
  | '#' :: rest => readComment rest
  | text => Line.sample <$> readSample text

/-! ## Families -/

/-- A family as its lines declare it. -/
structure Family where
  name : String
  help : Option String
  kind : Option Kind
  samples : List Sample

/-- The suffixes under which a family takes samples, beside its name. -/
def suffixes : Option Kind → List String
  | some .histogram => ["_bucket", "_sum", "_count"]
  | some .summary => ["_sum", "_count"]
  | _ => []

/-- The samples of a family bear its name, with a suffix of its kind. -/
def Family.takes (family : Family) (name : String) : Bool :=
  name = family.name || (suffixes family.kind).any fun suffix => name = family.name ++ suffix

/-- The families read so far, the last one in front. -/
def addLine (families : List Family) : Line → Option (List Family)
  | .empty | .comment => some families
  | .help name text =>
    match families with
    | current :: done =>
      if current.name = name then
        if current.help.isSome || !current.samples.isEmpty then none
        else some ({ current with help := some text } :: done)
      else if name ∈ done.map Family.name then none
      else some (⟨name, some text, none, []⟩ :: families)
    | [] => some [⟨name, some text, none, []⟩]
  | .type name kind =>
    match families with
    | current :: done =>
      if current.name = name then
        if current.kind.isSome || !current.samples.isEmpty then none
        else some ({ current with kind := some kind } :: done)
      else if name ∈ done.map Family.name then none
      else some (⟨name, none, some kind, []⟩ :: families)
    | [] => some [⟨name, none, some kind, []⟩]
  | .sample sample =>
    match families with
    | current :: done =>
      if current.takes sample.name then
        some ({ current with samples := current.samples ++ [sample] } :: done)
      else if sample.name ∈ done.map Family.name then none
      else some (⟨sample.name, none, none, [sample]⟩ :: families)
    | [] => some [⟨sample.name, none, none, [sample]⟩]

/-- Read one more line. -/
def step (families : List Family) (line : List Char) : Option (List Family) := do
  let line ← readLine line
  addLine families line

/-- **Read a text.** -/
def readText (text : List Char) : Option (List Family) :=
  let lines := text.splitOn '\n'
  if lines.getLast? = some [] then List.reverse <$> lines.dropLast.foldlM step [] else none

/-! ## Tokens side by side -/

theorem skipBlanks_of_head {text : List Char} (h : ∀ c ∈ text.head?, isBlank c = false) :
    skipBlanks text = text := by
  cases text with
  | nil => rfl
  | cons c rest => exact List.dropWhile_cons_of_neg (by simp [h c rfl])

@[simp] theorem skipBlanks_nil : skipBlanks [] = [] := rfl

@[simp] theorem skipBlanks_blank (rest : List Char) : skipBlanks (' ' :: rest) = skipBlanks rest :=
  rfl

section Names

variable {start char : Char → Bool}

/-- A legal name, and what ends it. -/
theorem takeName_append {c : Char} {name rest : List Char} (hstart : start c = true)
    (hname : ∀ c ∈ name, char c = true) (hrest : ∀ c ∈ rest.head?, char c = false) :
    takeName start char (c :: (name ++ rest)) = some (String.ofList (c :: name), rest) := by
  have htake : (name ++ rest).takeWhile char = name := by
    rw [List.takeWhile_append_of_pos hname, List.takeWhile_eq_nil_iff.mpr, List.append_nil]
    intro hpos
    cases rest with
    | nil => exact absurd hpos (Nat.lt_irrefl _)
    | cons c rest => simp [hrest c rfl]
  have hdrop : (name ++ rest).dropWhile char = rest := by
    rw [List.dropWhile_append_of_pos hname]
    cases rest with
    | nil => rfl
    | cons c rest => exact List.dropWhile_cons_of_neg (by simp [hrest c rfl])
  rw [takeName, if_pos hstart, htake, hdrop]

end Names

/-- A token, and what ends it. -/
theorem takeToken_append {token rest : List Char} (htoken : ∀ c ∈ token, isBlank c = false)
    (hrest : ∀ c ∈ rest.head?, isBlank c = true) : takeToken (token ++ rest) = (token, rest) := by
  have htoken' : ∀ c ∈ token, (!isBlank c) = true := fun c hc => by rw [htoken c hc]; rfl
  have htake : (token ++ rest).takeWhile (!isBlank ·) = token := by
    rw [List.takeWhile_append_of_pos htoken', List.takeWhile_eq_nil_iff.mpr, List.append_nil]
    intro hpos
    cases rest with
    | nil => exact absurd hpos (Nat.lt_irrefl _)
    | cons c rest => simp [hrest c rfl]
  have hdrop : (token ++ rest).dropWhile (!isBlank ·) = rest := by
    rw [List.dropWhile_append_of_pos htoken']
    cases rest with
    | nil => rfl
    | cons c rest => exact List.dropWhile_cons_of_neg (by simp [hrest c rfl])
  rw [takeToken, htake, hdrop]

theorem takeToken_blank {token : List Char} (htoken : ∀ c ∈ token, isBlank c = false)
    (rest : List Char) : takeToken (token ++ ' ' :: rest) = (token, ' ' :: rest) := by
  refine takeToken_append htoken fun c hc => ?_
  obtain rfl := Option.some.inj hc
  rfl

theorem takeToken_self {token : List Char} (htoken : ∀ c ∈ token, isBlank c = false) :
    takeToken token = (token, []) := by
  have happend := takeToken_append htoken (show ∀ c ∈ ([] : List Char).head?, isBlank c = true from
    nofun)
  rwa [List.append_nil] at happend

/-! ## Lines one after another -/

/-- Lines that each end with a line feed. -/
theorem splitOn_lines {lines : List (List Char)} (h : ∀ line ∈ lines, '\n' ∉ line) :
    (lines.flatMap (· ++ ['\n'])).splitOn '\n' = lines ++ [[]] := by
  induction lines with
  | nil => rfl
  | cons line rest ih =>
      obtain ⟨hline, hrest⟩ := List.forall_mem_cons.mp h
      rw [List.flatMap_cons, List.append_assoc, List.singleton_append,
        List.splitOn_append_cons_self_of_not_mem hline, ih hrest]
      rfl

theorem readText_lines {lines : List (List Char)} (h : ∀ line ∈ lines, '\n' ∉ line) :
    readText (lines.flatMap (· ++ ['\n'])) = List.reverse <$> lines.foldlM step [] := by
  rw [readText, splitOn_lines h, List.getLast?_concat, if_pos rfl, List.dropLast_concat]

/-- A family's name is not that of one before. -/
def New (name : String) (families : List Family) : Prop := name ∉ families.map Family.name

theorem addLine_help {name text : String} {families : List Family} (h : New name families) :
    addLine families (.help name text) = some (⟨name, some text, none, []⟩ :: families) := by
  cases families with
  | nil => rfl
  | cons current done =>
      obtain ⟨hne, hnew⟩ := not_or.mp fun hmem => h (List.mem_cons.mpr hmem)
      rw [addLine, if_neg (Ne.symm hne), if_neg hnew]

/-- Samples of a family that takes them. -/
theorem foldlM_samples {current : Family} {done : List Family} {lines : List (List Char)}
    {samples : List Sample} (hlines : lines.mapM readLine = some (samples.map .sample))
    (htakes : ∀ sample ∈ samples, current.takes sample.name = true) :
    lines.foldlM step (current :: done) =
      some ({ current with samples := current.samples ++ samples } :: done) := by
  induction lines generalizing current samples with
  | nil =>
      have hnil : samples = [] := by simpa using (Option.some.inj hlines).symm
      rw [hnil, List.append_nil]
      rfl
  | cons line rest ih =>
      rw [List.mapM_cons, Option.bind_eq_bind, Option.bind_eq_some_iff] at hlines
      obtain ⟨first, hfirst, hlines⟩ := hlines
      rw [Option.bind_eq_bind, Option.bind_eq_some_iff] at hlines
      obtain ⟨others, hothers, heq⟩ := hlines
      cases samples with
      | nil => exact nomatch heq
      | cons sample samples =>
          obtain ⟨rfl, rfl⟩ := List.cons.inj (Option.some.inj heq)
          obtain ⟨htake, htakes⟩ := List.forall_mem_cons.mp htakes
          have hstep : step (current :: done) line =
              some ({ current with samples := current.samples ++ [sample] } :: done) := by
            rw [step, hfirst]
            exact if_pos htake
          have hrest := @ih { current with samples := current.samples ++ [sample] } samples hothers
            htakes
          rw [List.append_assoc] at hrest
          rw [List.foldlM_cons, hstep]
          exact hrest

/-- **The lines of a family.** -/
theorem foldlM_family {families : List Family} {name text : String} {kind : Kind}
    {help type : List Char} {lines : List (List Char)} {samples : List Sample}
    (hnew : New name families) (hhelp : readLine help = some (.help name text))
    (htype : readLine type = some (.type name kind))
    (hlines : lines.mapM readLine = some (samples.map .sample))
    (htakes : ∀ sample ∈ samples, Family.takes ⟨name, some text, some kind, []⟩ sample.name =
    true) :
    (help :: type :: (lines ++ [[]])).foldlM step families =
      some (⟨name, some text, some kind, samples⟩ :: families) := by
  have hfirst : step families help = some (⟨name, some text, none, []⟩ :: families) := by
    rw [step, hhelp]
    exact addLine_help hnew
  have hsecond : step (⟨name, some text, none, []⟩ :: families) type =
      some (⟨name, some text, some kind, []⟩ :: families) := by
    rw [step, htype]
    exact if_pos rfl
  rw [List.foldlM_cons, hfirst]
  change (type :: (lines ++ [[]])).foldlM step _ = _
  rw [List.foldlM_cons, hsecond]
  change (lines ++ [[]]).foldlM step _ = _
  rw [List.foldlM_append, foldlM_samples hlines htakes]
  rfl

end Limpid.Exposition
