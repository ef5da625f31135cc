import LintGate.Proofs.Report.Coloring
/-! The stylish report in colours and without. Its rows lose the white space at their ends only
after they have been coloured. A rule in colours ends in a sequence, even where there is no rule,
and so the padding in front of a missing rule stays in the coloured rows. -/
namespace LintGate

/- Where each text of the one list is at least as long as its fellow, the two lists are alike
only if all of the texts are. -/
theorem flatMapLonger {α : Type} {f g : α → List Char} {xs : List α}
    (longer : ∀ x ∈ xs, (g x).length ≤ (f x).length) :
    (xs.flatMap g).length ≤ (xs.flatMap f).length := by
  induction xs with
  | nil => simp
  | cons x xs ih =>
    have head := longer x (by simp)
    have tail := ih fun y member => longer y (by simp [member])
    simp only [List.flatMap_cons, List.length_append]
    omega

theorem flatMapAlike {α : Type} {f g : α → List Char} {xs : List α}
    (longer : ∀ x ∈ xs, (g x).length ≤ (f x).length) (same : xs.flatMap f = xs.flatMap g) :
    ∀ x ∈ xs, f x = g x := by
  induction xs with
  | nil => simp
  | cons x xs ih =>
    obtain ⟨head, tail⟩ := List.forall_mem_cons.mp longer
    have rest := flatMapLonger tail
    have lengths := congrArg List.length same
    rw [List.flatMap_cons, List.flatMap_cons] at same lengths
    rw [List.length_append, List.length_append] at lengths
    obtain ⟨first, others⟩ := List.append_inj same (by omega)
    exact List.forall_mem_cons.mpr ⟨first, ih tail others⟩

/- The rule is there to be seen at the end of a row. -/
def Finding.EndsInRule (f : Finding) : Prop :=
  ∃ rule, f.rule = some rule ∧ Text.Solid rule.toList

namespace Report.Stylish
open Text (Colored Solid)

variable {r : Report} {directory : String}

/-! ### Rows -/

/- What stands before the rule, the last gap included. -/
def Columns.front (w : Columns) (colors : Bool) (f : Finding) : String :=
  "  " ++ Text.ink colors [.dimmed] (w.position f) ++
    "  " ++ Text.ink colors [f.severity.color] (Text.padEnd w.label f.severity.label) ++
    "  " ++ Text.padEnd w.text (sentence f.text) ++ "  "

theorem cellsParts (w : Columns) (colors : Bool) (f : Finding) :
    w.cells colors f = w.front colors f ++ Text.ink colors [.dimmed] (f.rule.getD "") := rfl

theorem frontColored (w : Columns) {f : Finding} (free : f.EscapeFree) :
    Colored (w.front true f).toList (w.front false f).toList := by
  have gap : Colored "  ".toList "  ".toList := Text.coloredSelf (by decide)
  have label : Text.EscapeFree (Text.padEnd w.label f.severity.label) :=
    Text.lacksPadEnd (by decide) _ (f.severity.labelLacks (by decide))
  have text : Text.EscapeFree (Text.padEnd w.text (sentence f.text)) :=
    Text.lacksPadEnd (by decide) _ (sentenceLacks free.text)
  have position := Text.coloredAppend gap
    (Text.inkColored [.dimmed] (positionLacks (by decide) w f))
  have severity := Text.coloredAppend (Text.coloredAppend position gap)
    (Text.inkColored [f.severity.color] label)
  have cells := Text.coloredAppend (Text.coloredAppend severity gap) (Text.coloredSelf text)
  simpa only [Columns.front, String.toList_append] using Text.coloredAppend cells gap

theorem cellsColored (w : Columns) {f : Finding} (free : f.EscapeFree) :
    Colored (w.cells true f).toList (w.cells false f).toList := by
  rw [cellsParts, cellsParts, String.toList_append, String.toList_append]
  exact Text.coloredAppend (frontColored w free) (Text.inkColored _ (missingLacks free.lacks))

/- The sequence behind the rule is visible to the trimming. -/
theorem rowColored (w : Columns) (f : Finding) : w.row true f = w.cells true f := by
  have solid : Solid (w.cells true f).toList := by
    rw [cellsParts, String.toList_append]
    exact Text.solidBehind (paintSolid .dimmed _) _
  have kept := Text.trimBehind solid []
  rw [List.append_nil] at kept
  rw [Columns.row, Text.trimEnd, kept]
  simp [Text.dropEndWhile]

theorem cellsSolid (w : Columns) (f : Finding) :
    Solid (w.cells false f).toList ↔ f.EndsInRule := by
  have gap : (w.front false f).toList = ("  " ++ Text.ink false [.dimmed] (w.position f) ++
    "  " ++ Text.ink false [f.severity.color] (Text.padEnd w.label f.severity.label) ++
    "  " ++ Text.padEnd w.text (sentence f.text)).toList ++ [' '] ++ [' '] := by
    simp [Columns.front]
  rw [cellsParts, Text.inkPlain, String.toList_append]
  by_cases filled : (f.rule.getD "").toList = []
  · rw [filled, List.append_nil, gap, Text.solidLast]
    refine iff_of_false (by decide) ?_
    rintro ⟨rule, stated, init, c, shape, _⟩
    rw [stated, Option.getD_some, shape] at filled
    simp at filled
  · rw [Text.solidFilled filled]
    cases stated : f.rule with
    | none => simp [stated] at filled
    | some rule =>
      simp [Finding.EndsInRule, stated]

/-! ### The whole report -/

/- The block of a file with its rows as they are given. -/
def written (head : String → String) (row : Columns → Finding → String) (f : FileReport) :
    List Char :=
  '\n' :: (Text.line (head f.file)).toList ++
    f.findings.flatMap fun x => (Text.line (row (.of f.findings) x)).toList

def blocks (head : String → String) (row : Columns → Finding → String) (r : Report) : List Char :=
  (r.filter FileReport.isListed).flatMap (written head row)

def trailer (colors : Bool) (r : Report) : List Char := (Text.unlines (countLines colors r)).toList

theorem renderParts (directory : String) (colors : Bool) (r : Report) :
    (render directory colors r).toList =
      blocks (header directory colors) (fun w => w.row colors) r ++ trailer colors r := by
  have newline : (Text.line "").toList = ['\n'] := rfl
  have each (f : FileReport) :
      (Text.unlines (block directory colors f)).toList =
        written (header directory colors) (fun w => w.row colors) f := by
    simp [block, written, Text.unlines, List.flatMap_map, Function.comp_def, newline]
  have whole :
      (Text.unlines ((r.filter FileReport.isListed).flatMap (block directory colors))).toList =
        (r.filter FileReport.isListed).flatMap
          fun f => (Text.unlines (block directory colors f)).toList := by
    simp [Text.unlines, List.flatMap_map, List.map_flatMap, List.flatMap_assoc]
  simp only [each] at whole
  rw [blocks, ← whole, trailer, ← String.toList_append, render, lines, Text.unlines, Text.unlines,
    Text.unlines, List.map_append, String.join_append]

theorem lineColored {s t : String} (colored : Colored s.toList t.toList) :
    Colored (Text.line s).toList (Text.line t).toList := by
  have newline : Colored "\n".toList "\n".toList := Text.coloredSelf (by decide)
  simpa [Text.line] using Text.coloredAppend colored newline

theorem blocksColored (directory : String) (free : r.EscapeFree) :
    Colored (blocks (header directory true) (fun w => w.row true) r)
      (blocks (header directory false) (fun w => w.cells false) r) := by
  refine Text.coloredFlatMap fun f member => ?_
  have safe := free f (List.mem_filter.mp member).1
  have head := lineColored (Text.inkColored [.underlined] (safe.lacks directory).path)
  refine Text.coloredAppend (.char (by decide) head) (Text.coloredFlatMap fun x found => ?_)
  dsimp only
  rw [rowColored]
  exact lineColored (cellsColored _ (safe.findings x found))

theorem trailerColored (r : Report) : Colored (trailer true r) (trailer false r) := by
  have count (s : Summary) : Text.EscapeFree (count s) := countLacks (by decide) s
  have empty : Colored (Text.line "").toList (Text.line "").toList :=
    Text.coloredSelf (by decide)
  unfold trailer countLines
  dsimp only
  split
  · simpa [Text.unlines] using Text.coloredAppend empty (lineColored (Text.inkColored _ (count _)))
  · exact .nil

theorem strippedRender (directory : String) (free : r.EscapeFree) :
    (Text.strip (render directory true r)).toList =
      blocks (header directory false) (fun w => w.cells false) r ++ trailer false r := by
  rw [Text.strip, String.toList_ofList, renderParts]
  exact Text.coloredStrip (Text.coloredAppend (blocksColored directory free) (trailerColored r))

theorem rowKept (w : Columns) (x : Finding) :
    w.cells false x = w.row false x ↔ x.EndsInRule := by
  have filled : (w.cells false x).toList ≠ [] := by simp [Columns.cells]
  rw [← cellsSolid w, ← Text.trimKeeps filled, Columns.row, Text.trimEnd, eq_comm,
    ← String.toList_inj, String.toList_ofList]

/-! Each row gets shorter by its trimming if it changes at all, and so do the blocks. -/

theorem rowShortens (w : Columns) (x : Finding) :
    (Text.line (w.row false x)).toList.length ≤ (Text.line (w.cells false x)).toList.length := by
  have shorter := Text.trimShortens (w.cells false x).toList
  simpa [Text.line, Columns.row, Text.trimEnd] using shorter

theorem lineKept (w : Columns) (x : Finding) :
    (Text.line (w.cells false x)).toList = (Text.line (w.row false x)).toList ↔ x.EndsInRule := by
  rw [← rowKept w, Text.line, Text.line, String.toList_append, String.toList_append,
    List.append_left_inj, String.toList_inj]

theorem writtenShortens (head : String → String) (f : FileReport) :
    (written head (fun w => w.row false) f).length ≤
      (written head (fun w => w.cells false) f).length := by
  have inside := flatMapLonger fun x (_ : x ∈ f.findings) => rowShortens (.of f.findings) x
  simpa [written] using inside

theorem writtenKept (head : String → String) (f : FileReport) :
    written head (fun w => w.cells false) f = written head (fun w => w.row false) f ↔
      ∀ x ∈ f.findings, x.EndsInRule := by
  rw [written, written, List.append_right_inj]
  constructor
  · intro same x found
    exact (lineKept _ x).mp (flatMapAlike (fun y _ => rowShortens _ y) same x found)
  · intro ends
    exact List.flatMap_congr fun x found => (lineKept _ x).mpr (ends x found)

theorem blocksKept (head : String → String) (r : Report) :
    blocks head (fun w => w.cells false) r = blocks head (fun w => w.row false) r ↔
      ∀ f ∈ r, ∀ x ∈ f.findings, x.EndsInRule := by
  constructor
  · intro same f member x found
    have listed : f.isListed = true := by
      rw [FileReport.isListed, Bool.not_eq_true', List.isEmpty_eq_false_iff_exists_mem]
      exact ⟨x, found⟩
    have block := flatMapAlike (fun g _ => writtenShortens head g) same f
      (List.mem_filter.mpr ⟨member, listed⟩)
    exact (writtenKept head f).mp block x found
  · intro ends
    exact List.flatMap_congr fun f member =>
      (writtenKept head f).mpr (ends f (List.mem_filter.mp member).1)

/- How the row of a finding ends, in colours and without. -/
structure RowEnds (w : Columns) (x : Finding) : Prop where
  bare : Solid (w.row false x).toList
  stripped : Text.strip (w.row true x) = w.cells false x
  trimmed : Text.trimEnd (Text.strip (w.row true x)) = w.row false x
  visible : Solid (Text.strip (w.row true x)).toList ↔ x.EndsInRule

theorem rowEnds (w : Columns) {x : Finding} (free : x.EscapeFree) : RowEnds w x := by
  have stripped : Text.strip (w.row true x) = w.cells false x := by
    rw [Text.strip, rowColored, Text.coloredStrip (cellsColored w free), String.ofList_toList]
  have colon : ':' ∈ (w.cells false x).toList := by
    simp [Columns.cells, Columns.position, Text.inkPlain]
  refine ⟨?_, stripped, by rw [stripped, Columns.row], by rw [stripped, cellsSolid]⟩
  rw [Columns.row, Text.trimEnd, String.toList_ofList]
  exact Text.trimSolid colon (by decide)

/- Without their sequences the coloured rows are the bare ones, but for the white space at their
ends: that is trimmed in both just where a rule is seen at the end. -/
theorem colorsKeepPadding (directory : String) (r : Report) (free : r.EscapeFree) :
    (Text.strip (render directory true r) = render directory false r ↔
      ∀ f ∈ r, ∀ x ∈ f.findings, x.EndsInRule) ∧
    ∀ f ∈ r, ∀ x ∈ f.findings, RowEnds (.of f.findings) x := by
  refine ⟨?_, fun f member x found => rowEnds _ ((free f member).findings x found)⟩
  rw [← String.toList_inj, strippedRender directory free, renderParts, List.append_left_inj]
  exact blocksKept _ r

/-! ### A finding with a rule and one without -/

def ruled : Finding := ⟨12, 3, .warning, "Missing semicolon.", some "semi", false⟩

def unruled : Finding := ⟨1, 1, .error, "no end", none, true⟩

theorem ruledFree : ruled.EscapeFree := by
  have rule : ∀ name ∈ ruled.rule, Text.EscapeFree name := by
    rintro name ⟨⟩
    decide
  exact ⟨by decide, rule⟩

theorem unruledFree : unruled.EscapeFree := ⟨by decide, by simp [unruled]⟩

theorem unruledEnds : ¬ unruled.EndsInRule := by
  rintro ⟨rule, stated, _⟩
  cases stated

theorem colorsKeepPaddingSample :
    Report.EscapeFree [⟨"a.js", 0, 1, [ruled]⟩] ∧
      Text.strip (render "/work" true [⟨"a.js", 0, 1, [ruled]⟩]) =
        render "/work" false [⟨"a.js", 0, 1, [ruled]⟩] ∧
      Report.EscapeFree [⟨"a.js", 1, 1, [ruled, unruled]⟩] ∧
      Text.strip (render "/work" true [⟨"a.js", 1, 1, [ruled, unruled]⟩]) ≠
        render "/work" false [⟨"a.js", 1, 1, [ruled, unruled]⟩] ∧
      RowEnds (.of [ruled, unruled]) unruled := by
  have free : Report.EscapeFree [⟨"a.js", 0, 1, [ruled]⟩] :=
    List.forall_mem_singleton.mpr ⟨by decide, by simp [ruledFree]⟩
  have both : Report.EscapeFree [⟨"a.js", 1, 1, [ruled, unruled]⟩] :=
    List.forall_mem_singleton.mpr ⟨by decide, by simp [ruledFree, unruledFree]⟩
  have seen : ruled.EndsInRule := ⟨"semi", rfl, ['s', 'e', 'm'], 'i', rfl, by decide⟩
  have alike := (colorsKeepPadding "/work" _ free).1
  have apart := colorsKeepPadding "/work" _ both
  refine ⟨free, alike.mpr (by simp [seen]), both, ?_,
    apart.2 _ (List.mem_singleton_self _) unruled (by simp)⟩
  intro same
  exact unruledEnds (apart.1.mp same _ (List.mem_singleton_self _) unruled (by simp))

/- The text of a syntax error has no rule behind it, and in colours two spaces are left. -/
theorem missingRulePadded :
    (¬ ∀ directory r, Report.EscapeFree r →
      Text.strip (render directory true r) = render directory false r) ∧
    Text.strip (render "/work" true [⟨"a.js", 1, 0, [unruled]⟩]) =
      "\na.js\n  1:1  error  no end  \n\n✖ 1 problem (1 error, 0 warnings)\n" ∧
    render "/work" false [⟨"a.js", 1, 0, [unruled]⟩] =
      "\na.js\n  1:1  error  no end\n\n✖ 1 problem (1 error, 0 warnings)\n" := by
  have colored : Text.strip (render "/work" true [⟨"a.js", 1, 0, [unruled]⟩]) =
      "\na.js\n  1:1  error  no end  \n\n✖ 1 problem (1 error, 0 warnings)\n" := by
    decide +kernel
  have bare : render "/work" false [⟨"a.js", 1, 0, [unruled]⟩] =
      "\na.js\n  1:1  error  no end\n\n✖ 1 problem (1 error, 0 warnings)\n" := by
    decide +kernel
  refine ⟨fun claim => ?_, colored, bare⟩
  have same := claim "/work" [⟨"a.js", 1, 0, [unruled]⟩]
    (List.forall_mem_singleton.mpr ⟨by decide, List.forall_mem_singleton.mpr unruledFree⟩)
  rw [colored, bare] at same
  exact absurd same (by decide)

end Report.Stylish
end LintGate
