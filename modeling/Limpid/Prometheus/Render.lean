import Limpid.Exposition
import Limpid.Metrics.Registered
import Limpid.Prometheus.Snapshot

/-!
# The exposition of a snapshot

`render_snapshot` of `limpid-prometheus`, and what its lines are by the grammar of the exposition
format: the help and the type of a family (`readLine_help`, `readLine_type`), and the samples of
its series (`readLine_sample`).
-/

namespace Limpid.Prometheus

open Dsl Metrics
open Exposition (Sample Kind isBlank isNameStart isNameChar isLabelStart isLabelChar readLabelValue
  unescapeHelp readLabel readLabels readLabelSet readSample readLine takeName takeToken
  takeName_append takeToken_blank takeToken_self skipBlanks skipBlanks_blank skipBlanks_nil
  skipBlanks_of_head)

/-! ## Text -/

/-- A backslash and a line end are escaped. -/
def escapeHelpChar (c : Char) : List Char :=
  if c = '\\' then ['\\', '\\'] else if c = '\n' then ['\\', 'n'] else [c]

/-- `escape_help`. -/
def escapeHelp (s : String) : String := String.ofList (s.toList.flatMap escapeHelpChar)

/-- A quote is escaped as well. -/
def escapeLabelChar (c : Char) : List Char :=
  if c = '\\' then ['\\', '\\'] else if c = '"' then ['\\', '"']
  else if c = '\n' then ['\\', 'n'] else [c]

/-- `escape_label_value`. -/
def escapeLabelValue (s : String) : String := String.ofList (s.toList.flatMap escapeLabelChar)

/-- A label as it is written. -/
def labelText (label : String × String) : String :=
  label.1 ++ "=\"" ++ escapeLabelValue label.2 ++ "\""

/-- The labels, with commas between them. -/
def joinLabels : Labels → String
  | [] => ""
  | [label] => labelText label
  | label :: rest => labelText label ++ "," ++ joinLabels rest

/-- The line of `write_sample`. -/
def sampleLine (sample : Sample) : String :=
  sample.name ++ (if sample.labels.isEmpty then "" else "\x7b" ++ joinLabels sample.labels ++ "\x7d") ++
    " " ++ sample.value

/-- `write_sample`. -/
def writeSample (sample : Sample) : String := sampleLine sample ++ "\n"

/-- The labels of a bucket. -/
def withBucketBound (labels : Labels) (bound : String) : Labels :=
  (labels ++ [("le", bound)]).insertionSort LabelLe

section Render

variable (rt : Runtime)

/-- The samples of a series. -/
def seriesSamples (name : String) : ExpositionSeries → List Sample
  | .value labels value => [⟨name, labels, toString value⟩]
  | .histogram labels buckets sum count =>
      let labels := mapHistogramLabels labels
      buckets.map (fun bucket => ⟨name ++ "_bucket", withBucketBound labels (rt.display bucket.1),
        toString bucket.2⟩) ++
      [⟨name ++ "_bucket", withBucketBound labels "+Inf", toString count⟩,
        ⟨name ++ "_sum", labels, rt.display sum⟩, ⟨name ++ "_count", labels, toString count⟩]

/-- The `# HELP` line. -/
def helpLine (family : ExpositionFamily) : String :=
  "# HELP " ++ family.name ++ " " ++ escapeHelp family.help

/-- The `# TYPE` line. -/
def typeLine (family : ExpositionFamily) : String :=
  "# TYPE " ++ family.name ++ " " ++ family.metricType.asStr

/-- One round of the loop of `render_snapshot`. -/
def renderFamily (family : ExpositionFamily) : String :=
  helpLine family ++ "\n" ++ typeLine family ++ "\n" ++
    String.join ((family.series.flatMap (seriesSamples rt family.name)).map writeSample) ++ "\n"

/-- `render_snapshot`. -/
def renderSnapshot (families : List ExpositionFamily) : String :=
  String.join (families.map (renderFamily rt))

end Render

/-! ## Escapes -/

theorem unescapeHelp_escape (text : List Char) :
    unescapeHelp (text.flatMap escapeHelpChar) = some text := by
  induction text with
  | nil => rfl
  | cons c rest ih =>
      rw [List.flatMap_cons, escapeHelpChar]
      split
      · next hc => simp [hc, unescapeHelp, ih]
      · split
        · next hc => simp [hc, unescapeHelp, ih]
        · next hslash _ => simp [unescapeHelp, hslash, ih]

theorem readLabelValue_escape (text rest : List Char) :
    readLabelValue (text.flatMap escapeLabelChar ++ '"' :: rest) = some (text, rest) := by
  induction text with
  | nil => rfl
  | cons c text ih =>
      rw [List.flatMap_cons, List.append_assoc, escapeLabelChar]
      split
      · next hc => simp [hc, readLabelValue, ih]
      · split
        · next hc => simp [hc, readLabelValue, ih]
        · split
          · next hc => simp [hc, readLabelValue, ih]
          · next hslash _ _ => simp [readLabelValue, hslash, ih]

/-- No escape writes a line feed. -/
theorem notMem_escapeHelpChar (c : Char) : '\n' ∉ escapeHelpChar c := by
  unfold escapeHelpChar
  split_ifs with hslash hfeed
  · decide
  · decide
  · exact fun hmem => hfeed (List.mem_singleton.mp hmem).symm

theorem notMem_escapeLabelChar (c : Char) : '\n' ∉ escapeLabelChar c := by
  unfold escapeLabelChar
  split_ifs with hslash hquote hfeed
  · decide
  · decide
  · decide
  · exact fun hmem => hfeed (List.mem_singleton.mp hmem).symm

/-! ## Names -/

theorem isBlank_of_isNameChar {c : Char} (h : isNameChar c = true) : isBlank c = false := by
  have hspace : isNameChar ' ' = false := by decide
  have htab : isNameChar '\t' = false := by decide
  rw [isBlank, Bool.or_eq_false_iff]
  constructor
  · exact decide_eq_false fun heq => by simp [heq, hspace] at h
  · exact decide_eq_false fun heq => by simp [heq, htab] at h

theorem isNameChar_of_isNameStart {c : Char} (h : isNameStart c = true) : isNameChar c = true := by
  unfold isNameStart at h
  unfold isNameChar
  simp only [Bool.or_eq_true, Char.isAlphanum] at h ⊢
  tauto

theorem isNameChar_of_isLabelChar {c : Char} (h : isLabelChar c = true) : isNameChar c = true := by
  unfold isLabelChar at h
  unfold isNameChar
  simp only [Bool.or_eq_true] at h ⊢
  tauto

theorem isLabelChar_of_isLabelStart {c : Char} (h : isLabelStart c = true) :
    isLabelChar c = true := by
  unfold isLabelStart at h
  unfold isLabelChar
  simp only [Bool.or_eq_true, Char.isAlphanum] at h ⊢
  tauto

/-- The characters of a legal metric name. -/
theorem exists_of_metricName {name : String} (h : isLegacyMetricName name = true) :
    ∃ c rest, name.toList = c :: rest ∧ isNameStart c = true ∧ ∀ c ∈ rest, isNameChar c = true := by
  unfold isLegacyMetricName at h
  cases hlist : name.toList with
  | nil =>
      rw [hlist] at h
      exact nomatch h
  | cons c rest =>
      rw [hlist, Bool.and_eq_true_iff] at h
      exact ⟨c, rest, rfl, h.1, List.all_eq_true.mp h.2⟩

/-- The characters of a legal label name. -/
theorem exists_of_labelName {name : String} (h : isLegacyLabelName name = true) :
    ∃ c rest, name.toList = c :: rest ∧ isLabelStart c = true ∧
      ∀ c ∈ rest, isLabelChar c = true := by
  unfold isLegacyLabelName at h
  split at h
  · exact nomatch h
  · exact nomatch h
  · next c rest _ hlist =>
    rw [Bool.and_eq_true_iff] at h
    exact ⟨c, rest, hlist, h.1, List.all_eq_true.mp h.2⟩

theorem isNameChar_of_mem {name : String} (h : isLegacyMetricName name = true) :
    ∀ c ∈ name.toList, isNameChar c = true := by
  obtain ⟨c, rest, hlist, hstart, hrest⟩ := exists_of_metricName h
  rw [hlist]
  exact List.forall_mem_cons.mpr ⟨isNameChar_of_isNameStart hstart, hrest⟩

theorem isLabelChar_of_mem {name : String} (h : isLegacyLabelName name = true) :
    ∀ c ∈ name.toList, isLabelChar c = true := by
  obtain ⟨c, rest, hlist, hstart, hrest⟩ := exists_of_labelName h
  rw [hlist]
  exact List.forall_mem_cons.mpr ⟨isLabelChar_of_isLabelStart hstart, hrest⟩

theorem skipBlanks_metricName {name : String} (h : isLegacyMetricName name = true)
    (rest : List Char) : skipBlanks (name.toList ++ rest) = name.toList ++ rest := by
  obtain ⟨c, more, hlist, hstart, -⟩ := exists_of_metricName h
  refine skipBlanks_of_head fun head hhead => ?_
  rw [hlist] at hhead
  obtain rfl := Option.some.inj hhead
  exact isBlank_of_isNameChar (isNameChar_of_isNameStart hstart)

theorem takeName_metricName {name : String} (h : isLegacyMetricName name = true)
    {rest : List Char} (hrest : ∀ c ∈ rest.head?, isNameChar c = false) :
    takeName isNameStart isNameChar (name.toList ++ rest) = some (name, rest) := by
  obtain ⟨c, more, hlist, hstart, hmore⟩ := exists_of_metricName h
  rw [hlist, List.cons_append, takeName_append hstart hmore hrest, ← hlist, String.ofList_toList]

theorem takeName_blank {name : String} (h : isLegacyMetricName name = true) (rest : List Char) :
    takeName isNameStart isNameChar (name.toList ++ ' ' :: rest) = some (name, ' ' :: rest) := by
  refine takeName_metricName h fun c hc => ?_
  obtain rfl := Option.some.inj hc
  decide

/-! ## Help and type -/

theorem escapeHelp_head {text : List Char} (h : ∀ c ∈ text.head?, isBlank c = false) :
    ∀ c ∈ (text.flatMap escapeHelpChar).head?, isBlank c = false := by
  cases text with
  | nil => exact fun c hc => nomatch hc
  | cons first rest =>
      have hfirst := h first rfl
      intro c hc
      rw [List.flatMap_cons, escapeHelpChar] at hc
      split at hc
      · obtain rfl := Option.some.inj hc
        rfl
      · split at hc
        · obtain rfl := Option.some.inj hc
          rfl
        · obtain rfl := Option.some.inj hc
          exact hfirst

theorem readLine_help {family : ExpositionFamily} (hname : isLegacyMetricName family.name = true)
    (hhelp : ∀ c ∈ family.help.toList.head?, isBlank c = false) :
    readLine (helpLine family).toList = some (.help family.name family.help) := by
  have hlist : (helpLine family).toList = '#' :: ' ' :: ("HELP".toList ++
      ' ' :: (family.name.toList ++ ' ' :: family.help.toList.flatMap escapeHelpChar)) := by
    simp [helpLine, escapeHelp]
  have htext : skipBlanks (' ' :: family.help.toList.flatMap escapeHelpChar) =
      family.help.toList.flatMap escapeHelpChar :=
    skipBlanks_of_head (escapeHelp_head hhelp)
  have hkeyword : ∀ rest : List Char,
      skipBlanks (' ' :: ("HELP".toList ++ rest)) = "HELP".toList ++ rest := fun _ => rfl
  rw [hlist]
  change Exposition.readComment (' ' :: ("HELP".toList ++ ' ' :: (_ ++ ' ' :: _))) = _
  rw [Exposition.readComment, hkeyword, takeToken_blank (by decide)]
  dsimp only
  rw [if_pos rfl, skipBlanks_blank, skipBlanks_metricName hname, takeName_blank hname]
  simp only [Option.bind_eq_bind, Option.bind_some, htext, unescapeHelp_escape,
    String.ofList_toList]

/-- The type of a family, by the grammar. -/
def kindOf : ExpositionType → Kind
  | .counter => .counter
  | .gauge => .gauge
  | .histogram => .histogram

theorem readLine_type {family : ExpositionFamily} (hname : isLegacyMetricName family.name = true) :
    readLine (typeLine family).toList = some (.type family.name (kindOf family.metricType)) := by
  have hlist : (typeLine family).toList = '#' :: ' ' :: ("TYPE".toList ++
      ' ' :: (family.name.toList ++ ' ' :: family.metricType.asStr.toList)) := by
    simp [typeLine]
  have hkind : ∀ c ∈ family.metricType.asStr.toList, isBlank c = false := by
    cases family.metricType <;> decide
  have hskip : skipBlanks (' ' :: family.metricType.asStr.toList) =
      family.metricType.asStr.toList := by
    cases family.metricType <;> rfl
  have hread : Exposition.readKind family.metricType.asStr = some (kindOf family.metricType) := by
    cases family.metricType <;> rfl
  have hkeyword : ∀ rest : List Char,
      skipBlanks (' ' :: ("TYPE".toList ++ rest)) = "TYPE".toList ++ rest := fun _ => rfl
  rw [hlist]
  change Exposition.readComment (' ' :: ("TYPE".toList ++ ' ' :: (_ ++ ' ' :: _))) = _
  rw [Exposition.readComment, hkeyword, takeToken_blank (by decide)]
  dsimp only
  rw [if_neg (by decide), if_pos rfl, skipBlanks_blank, skipBlanks_metricName hname,
    takeName_blank hname]
  simp only [Option.bind_eq_bind, Option.bind_some, hskip, takeToken_self hkind,
    String.ofList_toList, hread, skipBlanks_nil, if_true]

/-! ## Samples -/

theorem readLabel_text {label : String × String} (h : isLegacyLabelName label.1 = true)
    (rest : List Char) :
    readLabel ((labelText label).toList ++ rest) = some (label, rest) := by
  obtain ⟨c, more, hlist, hstart, hmore⟩ := exists_of_labelName h
  have htext : (labelText label).toList ++ rest = c :: (more ++ '=' ::
      '"' :: (label.2.toList.flatMap escapeLabelChar ++ '"' :: rest)) := by
    simp [labelText, escapeLabelValue, hlist]
  have htake : takeName isLabelStart isLabelChar ((labelText label).toList ++ rest) =
      some (label.1, '=' :: '"' :: (label.2.toList.flatMap escapeLabelChar ++ '"' :: rest)) := by
    rw [htext, takeName_append hstart hmore, ← hlist, String.ofList_toList]
    intro c hc
    obtain rfl := Option.some.inj hc
    decide
  have hequals : ∀ rest : List Char, skipBlanks ('=' :: rest) = '=' :: rest := fun _ => rfl
  have hquote : ∀ rest : List Char, skipBlanks ('"' :: rest) = '"' :: rest := fun _ => rfl
  rw [readLabel, htake]
  simp only [Option.bind_eq_bind, Option.bind_some, hequals, hquote, readLabelValue_escape,
    String.ofList_toList, Prod.mk.eta]

theorem labelText_head {label : String × String} (h : isLegacyLabelName label.1 = true) :
    ∃ c rest, (labelText label).toList = c :: rest ∧ isLabelStart c = true := by
  obtain ⟨c, rest, hlist, hstart, -⟩ := exists_of_labelName h
  exact ⟨c, _, by simp [labelText, hlist]; rfl, hstart⟩

theorem readLabels_text {labels : Labels} (hne : labels ≠ [])
    (h : ∀ label ∈ labels, isLegacyLabelName label.1 = true) {fuel : ℕ}
    (hfuel : labels.length ≤ fuel) (rest : List Char) :
    readLabels fuel ((joinLabels labels).toList ++ '}' :: rest) = some (labels, rest) := by
  induction labels generalizing fuel with
  | nil => exact absurd rfl hne
  | cons label more ih =>
      obtain ⟨hlabel, hmore⟩ := List.forall_mem_cons.mp h
      obtain ⟨fuel, rfl⟩ : ∃ n, fuel = n + 1 := Nat.exists_eq_add_one.mpr
        (Nat.lt_of_lt_of_le (Nat.succ_pos _) hfuel)
      have hstep : ∀ tail : List Char, skipBlanks tail = tail →
          (∀ rest, tail = '}' :: rest →
            readLabels (fuel + 1) ((labelText label).toList ++ tail) = some ([label], rest)) ∧
          ∀ rest, tail = ',' :: rest →
            readLabels (fuel + 1) ((labelText label).toList ++ tail) =
              (readLabels fuel rest).bind fun out => some (label :: out.1, out.2) := by
        intro tail htail
        obtain ⟨c, cs, hlist, hstart⟩ := labelText_head hlabel
        have hblank := isBlank_of_isNameChar
          (isNameChar_of_isLabelChar (isLabelChar_of_isLabelStart hstart))
        have hskip : skipBlanks ((labelText label).toList ++ tail) =
            (labelText label).toList ++ tail := by
          refine skipBlanks_of_head fun head hhead => ?_
          rw [hlist] at hhead
          obtain rfl := Option.some.inj hhead
          exact hblank
        have hbrace : c ≠ '}' := fun heq => by
          rw [heq] at hstart
          exact absurd hstart (by decide)
        rw [readLabels, hskip]
        split
        · next heq =>
          rw [hlist] at heq
          exact absurd (List.cons.inj heq).1 hbrace
        · rw [readLabel_text hlabel, Option.bind_eq_bind, Option.bind_some]
          simp only [htail]
          exact ⟨by rintro rest rfl; rfl, by rintro rest rfl; rfl⟩
      have hpunct : ∀ {c : Char} {cs : List Char}, c = ',' ∨ c = '}' →
          skipBlanks (c :: cs) = c :: cs := by
        rintro c cs (rfl | rfl) <;> rfl
      -- a comma comes before the next label, the brace after the last
      cases more with
      | nil =>
          exact (hstep _ (hpunct (.inr rfl))).1 _ rfl
      | cons second others =>
          have hrest := ih (List.cons_ne_nil _ _) hmore (Nat.le_of_succ_le_succ hfuel)
          have htext : (joinLabels (label :: second :: others)).toList ++ '}' :: rest =
              (labelText label).toList ++
                ',' :: ((joinLabels (second :: others)).toList ++ '}' :: rest) := by
            simp [joinLabels]
          rw [htext, (hstep _ (hpunct (.inl rfl))).2 _ rfl, hrest]
          rfl

theorem length_le_joinLabels (labels : Labels) :
    labels.length ≤ (joinLabels labels).toList.length := by
  induction labels with
  | nil => exact Nat.zero_le _
  | cons label rest ih =>
      have hlabel : 0 < (labelText label).toList.length := by simp [labelText]
      cases rest with
      | nil => exact hlabel
      | cons second others =>
          have htext : (joinLabels (label :: second :: others)).toList =
              (labelText label).toList ++ ',' :: (joinLabels (second :: others)).toList := by
            simp [joinLabels]
          rw [htext]
          simp only [List.length_append, List.length_cons] at ih ⊢
          omega

/-- A value as it is written: digits, a sign and a point. -/
def ValueText (text : String) : Prop :=
  text ≠ "" ∧ ∀ c ∈ text.toList, c.isDigit = true ∨ c = '-' ∨ c = '.'

/-- A sample that can be written. -/
structure SampleOk (sample : Sample) : Prop where
  name : isLegacyMetricName sample.name = true
  labels : ∀ label ∈ sample.labels, isLegacyLabelName label.1 = true
  sorted : (Entries.keys sample.labels).Pairwise (· < ·)
  value : ValueText sample.value

theorem ValueText.ne {text : String} (h : ValueText text) {c : Char} (hc : c ∈ text.toList) :
    isBlank c = false ∧ c ≠ '{' ∧ c ≠ '\n' := by
  rcases h.2 c hc with hdigit | rfl | rfl
  · have hne : ∀ other : Char, other.isDigit = false → c ≠ other := fun other hother heq => by
      rw [heq, hother] at hdigit
      exact Bool.false_ne_true hdigit
    refine ⟨?_, hne '{' (by decide), hne '\n' (by decide)⟩
    rw [isBlank, Bool.or_eq_false_iff]
    exact ⟨decide_eq_false (hne ' ' (by decide)), decide_eq_false (hne '\t' (by decide))⟩
  · decide
  · decide

/-- **A sample is read back.** -/
theorem readLine_sample {sample : Sample} (h : SampleOk sample) :
    readLine (sampleLine sample).toList = some (.sample sample) := by
  obtain ⟨name, labels, value⟩ := sample
  have hvalue : ∀ c ∈ value.toList, isBlank c = false := fun c hc => (h.value.ne hc).1
  have hskip : skipBlanks (' ' :: value.toList) = value.toList :=
    skipBlanks_of_head fun c hc => hvalue c (List.mem_of_mem_head? hc)
  have hsorted : Exposition.sortLabels labels = labels :=
    (RegistryCore.pairwise_labelLe h.sorted).insertionSort_eq
  have hsample : ∀ rest tail : List Char,
      takeName isNameStart isNameChar (name.toList ++ rest) = some (name, rest) →
      readLabelSet (skipBlanks rest) = some (labels, tail) → skipBlanks tail = value.toList →
      readSample (name.toList ++ rest) = some ⟨name, labels, value⟩ := by
    intro rest tail hname hlabels htail
    have hnodup : (labels.map Prod.fst).Nodup := h.sorted.imp ne_of_lt
    have hnonempty : value.toList ≠ [] := fun hnil => h.value.1 (String.toList_eq_nil_iff.mp hnil)
    rw [readSample, hname]
    simp only [Option.bind_eq_bind, Option.bind_some, hlabels, htail, takeToken_self hvalue,
      skipBlanks_nil, hsorted, String.ofList_toList]
    exact if_pos ⟨hnonempty, hnodup, .inl rfl, rfl⟩
  -- a line that starts like a name is a sample
  have hline : ∀ rest : List Char, readLine (name.toList ++ rest) =
      Exposition.Line.sample <$> readSample (name.toList ++ rest) := by
    intro rest
    obtain ⟨c, more, hlist, hstart, -⟩ := exists_of_metricName h.name
    rw [readLine, skipBlanks_metricName h.name, hlist, List.cons_append]
    split
    · next heq => exact nomatch heq
    · next heq =>
      rw [(List.cons.inj heq).1] at hstart
      exact absurd hstart (by decide)
    · rfl
  -- without labels there are no braces
  by_cases hnone : labels = []
  · have hlist : (sampleLine ⟨name, labels, value⟩).toList =
        name.toList ++ ' ' :: value.toList := by
      simp [sampleLine, hnone]
    have hset : readLabelSet (skipBlanks (' ' :: value.toList)) = some (labels, value.toList) := by
      rw [hskip, readLabelSet, hnone]
      intro rest heq
      have hmem : '{' ∈ value.toList := heq ▸ List.mem_cons_self
      exact (h.value.ne hmem).2.1 rfl
    have hself : skipBlanks value.toList = value.toList :=
      skipBlanks_of_head fun c hc => hvalue c (List.mem_of_mem_head? hc)
    rw [hlist, hline, hsample _ _ (takeName_blank h.name _) hset hself]
    rfl
  · have hempty : labels.isEmpty = false := List.isEmpty_eq_false_iff.mpr hnone
    have hlist : (sampleLine ⟨name, labels, value⟩).toList =
        name.toList ++ '{' :: ((joinLabels labels).toList ++ '}' :: ' ' :: value.toList) := by
      simp [sampleLine, hempty]
    have hset : readLabelSet (skipBlanks
        ('{' :: ((joinLabels labels).toList ++ '}' :: ' ' :: value.toList))) =
          some (labels, ' ' :: value.toList) := by
      change readLabels _ _ = _
      refine readLabels_text hnone h.labels ?_ _
      have hle := length_le_joinLabels labels
      rw [List.length_append]
      omega
    have hname : takeName isNameStart isNameChar (name.toList ++
        '{' :: ((joinLabels labels).toList ++ '}' :: ' ' :: value.toList)) =
          some (name, '{' :: ((joinLabels labels).toList ++ '}' :: ' ' :: value.toList)) := by
      refine takeName_metricName h.name fun c hc => ?_
      obtain rfl := Option.some.inj hc
      decide
    rw [hlist, hline, hsample _ _ hname hset hskip]
    rfl

/-! ## No line feeds -/

theorem notMem_labelText {label : String × String} (h : isLegacyLabelName label.1 = true) :
    '\n' ∉ (labelText label).toList := by
  have hname : '\n' ∉ label.1.toList := fun hmem =>
    absurd (isLabelChar_of_mem h _ hmem) (by decide)
  simp [labelText, escapeLabelValue, hname, notMem_escapeLabelChar]

theorem notMem_joinLabels {labels : Labels}
    (h : ∀ label ∈ labels, isLegacyLabelName label.1 = true) :
    '\n' ∉ (joinLabels labels).toList := by
  induction labels with
  | nil => exact List.not_mem_nil
  | cons label rest ih =>
      obtain ⟨hlabel, hrest⟩ := List.forall_mem_cons.mp h
      cases rest with
      | nil => exact notMem_labelText hlabel
      | cons second others =>
          have htext : (joinLabels (label :: second :: others)).toList =
              (labelText label).toList ++ ',' :: (joinLabels (second :: others)).toList := by
            simp [joinLabels]
          rw [htext]
          simp [notMem_labelText hlabel, ih hrest]

theorem notMem_metricName {name : String} (h : isLegacyMetricName name = true) :
    '\n' ∉ name.toList := fun hmem => absurd (isNameChar_of_mem h _ hmem) (by decide)

theorem notMem_sampleLine {sample : Sample} (h : SampleOk sample) :
    '\n' ∉ (sampleLine sample).toList := by
  have hvalue : '\n' ∉ sample.value.toList := fun hmem => (h.value.ne hmem).2.2 rfl
  have hname := notMem_metricName h.name
  unfold sampleLine
  split
  · simp [hname, hvalue]
  · simp [hname, hvalue, notMem_joinLabels h.labels]

theorem notMem_helpLine {family : ExpositionFamily} (h : isLegacyMetricName family.name = true) :
    '\n' ∉ (helpLine family).toList := by
  simp [helpLine, escapeHelp, notMem_metricName h, notMem_escapeHelpChar]

theorem notMem_typeLine {family : ExpositionFamily} (h : isLegacyMetricName family.name = true) :
    '\n' ∉ (typeLine family).toList := by
  have htype : '\n' ∉ family.metricType.asStr.toList := by
    cases family.metricType <;> decide
  simp [typeLine, notMem_metricName h, htype]

end Limpid.Prometheus
