import LintGate.Proofs.Stages
import LintGate.Proofs.Yaml.Scanning
/-! What is read from a declaration in YAML. Its words make one mapping without anchors or tags,
and each of its members is read as the value that it states. -/
namespace LintGate.Yaml
open Settings (Value truthWord)
open Notation (Lines)
open Scan (itemTokens valueTokens lineTokens textTokens)

/-! ### Nodes -/

variable {α : Type}

def wordNode (w : String) : Node α := .scalar .none .quoted w

def valueNode : Value → Node α
  | .text s => wordNode s
  | .truth b => .scalar .none .plain (truthWord b)
  | .words ws => .sequence .none (ws.map wordNode)

def keyNode (key : String) : Node α := .scalar .none .plain key

def lineNodes (e : String × Value) : Node α × Node α := (keyNode e.1, valueNode e.2)

variable {h : Handles} {fuel : Nat} {ts : List Token}

theorem scalarParsed (c : Context) (style : Style) (text : String) :
    nodeFrom h (fuel + 1) c (.scalar style text :: ts) = some (.scalar .none style text, ts) := by
  cases c <;> simp [nodeFrom, properties?]

theorem itemsParsed (ws : List String) (first : Bool)
    (enough : (itemTokens first ws).length < fuel) :
    flowItemsFrom h fuel first (itemTokens first ws ++ .flowSequenceEnd :: ts) =
      some (ws.map wordNode, ts) := by
  induction ws generalizing first fuel with
  | nil =>
    obtain ⟨f, rfl⟩ : ∃ f, fuel = f + 1 := ⟨fuel - 1, by omega⟩
    simp [itemTokens, flowItemsFrom]
  | cons w ws ih =>
    obtain ⟨f, rfl⟩ : ∃ f, fuel = f + 2 := ⟨fuel - 2, by simp [itemTokens] at enough; omega⟩
    have shorter : (itemTokens false ws).length < f + 1 := by simp [itemTokens] at enough; omega
    cases first <;>
      simp [itemTokens, flowItemsFrom, separated?, scalarParsed, ih false shorter, wordNode]

theorem valueParsed (v : Value) (enough : (valueTokens v).length < fuel) :
    nodeFrom h fuel .member (valueTokens v ++ ts) = some (valueNode v, ts) := by
  obtain ⟨f, rfl⟩ : ∃ f, fuel = f + 1 := ⟨fuel - 1, by omega⟩
  cases v with
  | text s => exact scalarParsed .member .quoted s
  | truth b => exact scalarParsed .member .plain (truthWord b)
  | words ws =>
    have shorter : (itemTokens true ws).length < f := by simp [valueTokens] at enough; omega
    simp [valueTokens, nodeFrom, properties?, itemsParsed ws true shorter, valueNode]

theorem lineParsed (e : String × Value) (enough : (valueTokens e.2).length < fuel) :
    membersFrom h (fuel + 3) (lineTokens e ++ ts) =
      (membersFrom h (fuel + 2) ts).map fun (ms, ts) => (lineNodes e :: ms, ts) := by
  obtain ⟨key, v⟩ := e
  have there : (valueTokens v ++ ts).head?.any Token.endsMember = false := by cases v <;> rfl
  have named (rest : List Token) : nodeOrEmptyFrom h Token.endsMember (fuel + 2) .member
      (.scalar .plain key :: rest) = some (keyNode key, rest) := by
    rw [nodeOrEmptyFrom]
    simp [Token.endsMember, scalarParsed, keyNode]
  have valued : valueFrom h Token.endsMember (fuel + 2) .member
      (.value :: (valueTokens v ++ ts)) = some (valueNode v, ts) := by
    rw [valueFrom, nodeOrEmptyFrom, there]
    exact valueParsed v enough
  rw [lineTokens, List.cons_append, List.cons_append, List.cons_append, membersFrom, named]
  simp only [Option.bind_eq_bind, Option.bind_some, valued]
  cases membersFrom h (fuel + 2) ts <;> rfl

theorem membersParsed (es : List (String × Value))
    (enough : (es.flatMap lineTokens).length + 1 < fuel) :
    membersFrom h fuel (es.flatMap lineTokens ++ .blockEnd :: ts) =
      some (es.map lineNodes, ts) := by
  induction es generalizing fuel with
  | nil =>
    obtain ⟨f, rfl⟩ : ∃ f, fuel = f + 1 := ⟨fuel - 1, by omega⟩
    simp [membersFrom]
  | cons e es ih =>
    simp only [List.flatMap_cons, List.length_append, lineTokens, List.length_cons] at enough
    obtain ⟨f, rfl⟩ : ∃ f, fuel = f + 3 := ⟨fuel - 3, by omega⟩
    rw [List.flatMap_cons, List.append_assoc, lineParsed e (by omega), ih (by omega)]
    rfl

/-! ### The document -/

theorem wordsNumbered (a : Anchors) (ws : List String) :
    Node.numberItems a (ws.map wordNode) = some (a, ws.map wordNode) := by
  induction ws with
  | nil => rfl
  | cons w ws ih => simp [Node.numberItems, wordNode, Node.number, Properties.number, Anchors.add,
      Properties.none, ih]

theorem valueNumbered (a : Anchors) (v : Value) :
    (valueNode v).number a = some (a, valueNode v) := by
  cases v with
  | text s => rfl
  | truth b => rfl
  | words ws =>
    simp [valueNode, Node.number, Properties.number, Anchors.add, Properties.none, wordsNumbered]

theorem linesNumbered (a : Anchors) (es : List (String × Value)) :
    Node.numberMembers a (es.map lineNodes) = some (a, es.map lineNodes) := by
  induction es with
  | nil => rfl
  | cons e es ih =>
    simp [Node.numberMembers, lineNodes, keyNode, Node.number, Properties.number, Anchors.add,
      Properties.none, valueNumbered, ih]

theorem mappingParsed (es : List (String × Value))
    (enough : (es.flatMap lineTokens).length + 1 < fuel) :
    nodeFrom h (fuel + 1) .block (.blockMapping :: (es.flatMap lineTokens ++ .blockEnd :: ts)) =
      some (.mapping .none (es.map lineNodes), ts) := by
  simp [nodeFrom, properties?, membersParsed es enough]

theorem rootParsed (es : List (String × Value)) :
    root? (.blockMapping :: (es.flatMap lineTokens ++ [.blockEnd])) =
      some (.mapping .none (es.map lineNodes), []) := by
  have parsed : node? Handles.usual (.blockMapping :: (es.flatMap lineTokens ++ [.blockEnd])) =
      some (.mapping .none (es.map lineNodes), []) :=
    mappingParsed es (by simp only [List.length_cons, List.length_append]; omega)
  simpa [root?, Token.opensDocument] using parsed

def document (es : List (String × Value)) : Document := ⟨.mapping .none (es.map lineNodes)⟩

theorem rootNumbered (es : List (String × Value)) :
    Node.number [] (.mapping .none (es.map lineNodes)) = some ([], (document es).root) := by
  simp [Node.number, Properties.number, Anchors.add, Properties.none, linesNumbered, document]

theorem textRead {es} {text : String} (h : Lines .yaml es text.toList)
    (known : ∀ e ∈ es, e.1 ∈ Settings.keys) :
    read? text = some (if es.isEmpty then none else some (document es)) := by
  rw [read?, Scan.textScanned h known]
  cases es with
  | nil => rfl
  | cons e es =>
    have tokens : textTokens (e :: es) =
        .blockMapping :: ((e :: es).flatMap lineTokens ++ [.blockEnd]) := rfl
    rw [tokens]
    simp only [Option.bind_eq_bind, Option.bind_some, rootParsed, List.all_nil, if_true,
      rootNumbered]
    rfl

end LintGate.Yaml

namespace LintGate.Settings
open Yaml (Node Document valueNode lineNodes wordNode document)

/-! ### Settings -/

variable {es : List (String × Value)} {key : String}

theorem valueTarget (d : Document) (v : Value) : d.deref (valueNode v) = valueNode v := by
  cases v <;> rfl

theorem linesMembers (d : Document) (es : List (String × Value)) :
    (es.map lineNodes).mapM (member? d) = some (es.map fun e => (e.1, valueNode e.2)) := by
  induction es with
  | nil => rfl
  | cons e es ih =>
    rw [List.map_cons, List.mapM_cons, ih]
    rfl

theorem valuePresent (v : Value) : present? (valueNode v) = some true := by
  cases v with
  | text s => rfl
  | truth b => cases b <;> rfl
  | words ws => rfl

theorem nullableRead {α β : Type} {d : Document} {read : Node Nat → Option β}
    {inject : α → Value} {result : α → β}
    (reads : ∀ a, read (valueNode (inject a)) = some (result a)) {stated : Option α}
    (found : es.lookup key = stated.map inject) :
    nullable d read (es.map fun e => (e.1, valueNode e.2)) key = some (stated.map result) := by
  rw [nullable, Declaration.lookupMapped valueNode es key, found]
  cases stated with
  | none => rfl
  | some a => simp [valueTarget, valuePresent, reads]

theorem commandWords (d : Document) (c : Command) :
    words? d (valueNode c.value) = some c.argv := by
  cases c with
  | program name => rfl
  | words ws =>
    show (ws.map wordNode).mapM (fun n => word? (d.deref n)) = some ws
    exact elementsRead fun _ _ => rfl

theorem documentRead {d : Declaration} (apart : (es.map Prod.fst).Nodup) (found : d.Lookups es) :
    ofDocument? (document es) = some d.settings := by
  have members : members? (document es) = some (es.map fun e => (e.1, valueNode e.2)) :=
    linesMembers (document es) es
  have once : (((es.map fun e => (e.1, (valueNode e.2 : Node Nat))).map Prod.fst).filter
      keys.contains).Nodup := by
    rw [List.map_map]
    exact apart.filter _
  have texts : ∀ s : String, scalarText? (valueNode (.text s)) = some (id s) := fun _ => rfl
  have truths : ∀ b : Bool, truth? (valueNode (.truth b)) = some (id b) := by
    intro b
    cases b <;> rfl
  rw [ofDocument?, members, Option.bind_eq_bind, Option.bind_some, if_pos once,
    nullableRead texts found.format, nullableRead truths found.strict,
    nullableRead texts found.preset, nullableRead truths found.localConfig,
    nullableRead (commandWords (document es)) found.command]
  simp [Declaration.settings]

/- A text without lines is no document at all, and yet says what one without members would. -/
theorem nothingStated {d : Declaration} (found : d.Lookups []) : d.settings = .empty := by
  have read : ofDocument? (document []) = some d.settings := documentRead List.nodup_nil found
  have nothing : ofDocument? (document []) = some .empty := rfl
  exact Option.some.inj (read.symm.trans nothing)

theorem yamlRead {text : String} {d : Declaration} (h : Notation.yaml.Declares text d) :
    ofYaml? text = some d.settings := by
  obtain ⟨es, order, lines⟩ := h
  have found := Declaration.orderedLookups order
  rw [ofYaml?, Yaml.textRead lines (Declaration.orderedKeys order), Option.bind_eq_bind,
    Option.bind_some]
  cases es with
  | nil => rw [nothingStated found]; rfl
  | cons e es => exact documentRead (Declaration.orderedApart order) found

end LintGate.Settings
