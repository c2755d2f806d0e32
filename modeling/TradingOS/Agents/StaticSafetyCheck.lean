import Mathlib.Algebra.Order.Field.Rat
import TradingOS.Lib.TreeWalk

namespace TradingOS.Agents

open Lib

inductive Constant
  | int (n : ℤ)
  | float (x : ℚ)
  | bool (b : Bool)
  | other
  deriving DecidableEq

inductive UnaryOperator
  | usub | other
  deriving DecidableEq

/-- A syntax tree of the language: the nodes that the check looks at and those that bind, with the
line of those whose line it reports. Every other class of node, a statement, an expression or a
part of one, is `other` with the nodes in its fields. -/
inductive Ast
  | name (id : String)
  | attribute (value : Ast) (attr : String)
  | starred (value : Ast)
  | tuple (elts : List Ast)
  | list (elts : List Ast)
  | constant (value : Constant)
  | unaryOp (op : UnaryOperator) (operand : Ast)
  | call (lineno : ℕ) (func : Ast) (args keywords : List Ast)
  | importNames (lineno : ℕ) (names : List String)
  | importFrom (lineno : ℕ) (module : Option String) (names : List String)
  | assign (lineno : ℕ) (targets : List Ast) (value : Ast)
  | augAssign (lineno : ℕ) (target value : Ast)
  | annAssign (lineno : ℕ) (target annotation : Ast) (value : Option Ast)
  | forLoop (async : Bool) (lineno : ℕ) (target iter : Ast) (body orelse : List Ast)
  | comprehension (async : Bool) (target iter : Ast) (ifs : List Ast)
  | withitem (contextExpr : Ast) (optionalVars : Option Ast)
  | delete (lineno : ℕ) (targets : List Ast)
  | other (fields : List Ast)

namespace Ast

/-- `ast.iter_child_nodes`. -/
def children : Ast → List Ast
  | .name _ | .constant _ | .importNames _ _ | .importFrom _ _ _ => []
  | .attribute value _ | .starred value => [value]
  | .tuple elts | .list elts => elts
  | .unaryOp _ operand => [operand]
  | .call _ func args keywords => func :: args ++ keywords
  | .assign _ targets value => targets ++ [value]
  | .augAssign _ target value => [target, value]
  | .annAssign _ target annotation value => [target, annotation] ++ value.toList
  | .forLoop _ _ target iter body orelse => [target, iter] ++ body ++ orelse
  | .comprehension _ target iter ifs => [target, iter] ++ ifs
  | .withitem contextExpr optionalVars => contextExpr :: optionalVars.toList
  | .delete _ targets => targets
  | .other fields => fields

mutual

def size : Ast → ℕ
  | .name _ | .constant _ | .importNames _ _ | .importFrom _ _ _ => 1
  | .attribute value _ | .starred value => value.size + 1
  | .tuple elts | .list elts => sizeAll elts + 1
  | .unaryOp _ operand => operand.size + 1
  | .call _ func args keywords => func.size + sizeAll args + sizeAll keywords + 1
  | .assign _ targets value => sizeAll targets + value.size + 1
  | .augAssign _ target value => target.size + value.size + 1
  | .annAssign _ target annotation value => target.size + annotation.size + sizeOption value + 1
  | .forLoop _ _ target iter body orelse =>
    target.size + iter.size + sizeAll body + sizeAll orelse + 1
  | .comprehension _ target iter ifs => target.size + iter.size + sizeAll ifs + 1
  | .withitem contextExpr optionalVars => contextExpr.size + sizeOption optionalVars + 1
  | .delete _ targets => sizeAll targets + 1
  | .other fields => sizeAll fields + 1

def sizeAll : List Ast → ℕ
  | [] => 0
  | a :: as => a.size + sizeAll as

def sizeOption : Option Ast → ℕ
  | none => 0
  | some a => a.size

end

theorem sizeAll_eq (as : List Ast) : sizeAll as = (as.map size).sum := by
  induction as with
  | nil => rfl
  | cons a as ih => rw [sizeAll, ih, List.map_cons, List.sum_cons]

theorem sizeOption_eq (a : Option Ast) : sizeOption a = (a.toList.map size).sum := by
  cases a with
  | none => rfl
  | some a => rfl

theorem sum_size_children_lt (a : Ast) : (a.children.map size).sum < a.size := by
  cases a <;> simp [children, size, sizeAll_eq, sizeOption_eq] <;> omega

/-- `ast.walk`. -/
def walk (tree : Ast) : List Ast := walkLoop children tree.size [tree]

theorem mem_walk {tree node : Ast} : node ∈ tree.walk ↔ Within children node tree := by
  have hfuel : ([tree].map size).sum ≤ tree.size := by simp
  rw [walk, mem_walkLoop sum_size_children_lt hfuel]
  simp

end Ast

def bannedAstCalls : List String := ["eval", "exec", "compile", "__import__", "setattr"]

def bannedImportModules : List String := ["os", "subprocess", "socket", "shutil", "sys", "ctypes"]

def bannedAttributeAssignmentTargets : List String :=
  ["vbt", "vectorbt", "pl", "polars", "pd", "pandas", "np", "numpy", "numba"]

def bannedAttributeCalls : List (String × List String) :=
  [("os", ["system", "popen", "execv", "execve", "execvp", "spawnv", "spawnve", "remove",
      "unlink"]),
    ("subprocess", ["run", "call", "Popen", "check_output", "check_call"]),
    ("shutil", ["rmtree", "move"]),
    ("socket", ["socket", "create_connection"])]

/-- `name.split(".")[0]`. -/
def moduleRoot (name : String) : String := String.ofList (name.toList.takeWhile (· ≠ '.'))

namespace Ast

/-- A truth value is an integer too. -/
def isNegativeNumber : Ast → Bool
  | .unaryOp .usub (.constant value) => value ≠ .other
  | .constant (.int n) => n < 0
  | .constant (.float x) => x < 0
  | _ => false

def attributeRootName : Ast → Option String
  | .attribute value _ => value.attributeRootName
  | .name id => some id
  | _ => none

/-- An attribute, reached by attribute accesses from the name of a shared library. -/
def isProtected : Ast → Bool
  | .attribute value _ =>
    value.attributeRootName.any fun id ↦ id ∈ bannedAttributeAssignmentTargets
  | _ => false

def assignmentViolations (lineno : ℕ) (targets : List Ast) : List String :=
  (targets.filter isProtected).map fun _ ↦
    s!"banned attribute assignment onto a shared sandbox library at line {lineno}"

def callViolations (lineno : ℕ) (func : Ast) (args : List Ast) : List String :=
  match func with
  | .name id => if id ∈ bannedAstCalls then [s!"banned call: {id}() at line {lineno}"] else []
  | .attribute value attr =>
    let banned :=
      match value with
      | .name id =>
        if attr ∈ (bannedAttributeCalls.lookup id).getD [] then
          [s!"banned call: {id}.{attr}() at line {lineno}"]
        else []
      | _ => []
    let lookAhead :=
      if attr = "shift" ∧ args.head?.any isNegativeNumber then
        [s!"possible look-ahead bias: negative .shift() at line {lineno} " ++
          "pulls future data into the current row"]
      else []
    banned ++ lookAhead
  | _ => []

/-- The body of the loop of `StaticSafetyCheckSkill.execute`. -/
def violations : Ast → List String
  | .call lineno func args _ => callViolations lineno func args
  | .importNames lineno names =>
    (names.filter fun n ↦ moduleRoot n ∈ bannedImportModules).map fun n ↦
      s!"banned import: {n} at line {lineno}"
  | .importFrom lineno (some module) _ =>
    if module ≠ "" ∧ moduleRoot module ∈ bannedImportModules then
      [s!"banned import: {module} at line {lineno}"]
    else []
  | .assign lineno targets _ => assignmentViolations lineno targets
  | .augAssign lineno target _ => assignmentViolations lineno [target]
  | _ => []

end Ast

structure SafetyVerdict where
  passed : Bool
  violations : List String
  deriving DecidableEq

/-- `parse` is `ast.parse`, which gives the text of a `SyntaxError` or a tree. -/
def staticSafetyCheck (parse : String → Except String Ast) (code : String) : SafetyVerdict :=
  match parse code with
  | .error e => ⟨false, [s!"SyntaxError: {e}"]⟩
  | .ok tree =>
    let violations := tree.walk.flatMap Ast.violations
    ⟨violations.isEmpty, violations⟩

namespace Ast

/-- What a node binds or deletes; a node of any other class binds names only. -/
def targets : Ast → List Ast
  | .assign _ targets _ | .delete _ targets => targets
  | .augAssign _ target _ | .annAssign _ target _ _ | .forLoop _ _ target _ _ _ |
    .comprehension _ target _ _ => [target]
  | .withitem _ optionalVars => optionalVars.toList
  | _ => []

/-- The targets that an unpacking target stands for. -/
inductive Unpacks : Ast → Ast → Prop
  | self (target : Ast) : Unpacks target target
  | tuple {elts : List Ast} {elt target : Ast} (h : elt ∈ elts) (hrest : Unpacks elt target) :
      Unpacks (.tuple elts) target
  | list {elts : List Ast} {elt target : Ast} (h : elt ∈ elts) (hrest : Unpacks elt target) :
      Unpacks (.list elts) target
  | starred {value target : Ast} (hrest : Unpacks value target) : Unpacks (.starred value) target

/-- A plain or an augmented assignment. -/
def isAssignment : Ast → Bool
  | .assign _ _ _ | .augAssign _ _ _ => true
  | _ => false

def Rebinds (tree : Ast) : Prop :=
  ∃ node, Within children node tree ∧ ∃ written ∈ node.targets, ∃ target,
    Unpacks written target ∧ target.isProtected

/-- Some plain or augmented assignment has a protected attribute as it stands for its target. -/
def RebindsPlainly (tree : Ast) : Prop :=
  ∃ node, Within children node tree ∧ node.isAssignment ∧ ∃ target ∈ node.targets, target.isProtected

/-- A protected attribute is the target of an annotated assignment, a loop, a comprehension, a
`with` or a `del`, or is inside of a tuple, a list or a starred target. -/
def RebindsOtherwise (tree : Ast) : Prop :=
  ∃ node, Within children node tree ∧ ∃ written ∈ node.targets, ∃ target,
    Unpacks written target ∧ target.isProtected ∧ ¬ (node.isAssignment ∧ target = written)

/-- Another rule of the check meets the tree. -/
def BreaksOtherRule (tree : Ast) : Prop :=
  ∃ node, Within children node tree ∧ node.isAssignment = false ∧ node.violations ≠ []

theorem violations_ne_nil_iff_of_isAssignment {node : Ast} (h : node.isAssignment) :
    node.violations ≠ [] ↔ ∃ target ∈ node.targets, target.isProtected := by
  have hfilter (lineno : ℕ) (targets : List Ast) : assignmentViolations lineno targets ≠ [] ↔
      ∃ target ∈ targets, target.isProtected := by
    rw [assignmentViolations, Ne, List.map_eq_nil_iff, List.filter_eq_nil_iff]
    simp
  cases node with
  | assign lineno targets value => exact hfilter lineno targets
  | augAssign lineno target value => exact hfilter lineno [target]
  | _ => cases h

theorem rebinds_iff {tree : Ast} :
    tree.Rebinds ↔ tree.RebindsPlainly ∨ tree.RebindsOtherwise := by
  constructor
  · rintro ⟨node, hnode, written, hwritten, target, htarget, hprotected⟩
    by_cases hplain : node.isAssignment ∧ target = written
    · obtain ⟨hassign, rfl⟩ := hplain
      exact .inl ⟨node, hnode, hassign, target, hwritten, hprotected⟩
    · exact .inr ⟨node, hnode, written, hwritten, target, htarget, hprotected, hplain⟩
  · rintro (⟨node, hnode, -, target, htarget, hprotected⟩ |
      ⟨node, hnode, written, hwritten, target, htarget, hprotected, -⟩)
    · exact ⟨node, hnode, target, htarget, target, .self target, hprotected⟩
    · exact ⟨node, hnode, written, hwritten, target, htarget, hprotected⟩

end Ast

/-- The code is rejected when an assignment rebinds plainly, or for another reason. -/
theorem staticSafetyCheck_rejects_iff {parse : String → Except String Ast} {code : String}
    {tree : Ast} (h : parse code = .ok tree) :
    (staticSafetyCheck parse code).passed = false ↔ tree.RebindsPlainly ∨ tree.BreaksOtherRule := by
  have hpassed : (staticSafetyCheck parse code).passed =
      (tree.walk.flatMap Ast.violations).isEmpty := by
    rw [staticSafetyCheck, h]
  rw [hpassed, List.isEmpty_eq_false_iff, Ne, List.flatMap_eq_nil_iff]
  constructor
  · intro hnot
    obtain ⟨node, hnode, hviolates⟩ : ∃ node ∈ tree.walk, node.violations ≠ [] := by
      by_contra hnone
      refine hnot fun node hnode ↦ ?_
      by_contra hviolates
      exact hnone ⟨node, hnode, hviolates⟩
    rw [Ast.mem_walk] at hnode
    cases hassign : node.isAssignment with
    | true =>
      exact .inl ⟨node, hnode, hassign,
        (Ast.violations_ne_nil_iff_of_isAssignment hassign).mp hviolates⟩
    | false => exact .inr ⟨node, hnode, hassign, hviolates⟩
  · rintro (⟨node, hnode, hassign, hprotected⟩ | ⟨node, hnode, -, hviolates⟩) hnone
    · exact (Ast.violations_ne_nil_iff_of_isAssignment hassign).mpr hprotected
        (hnone node (Ast.mem_walk.mpr hnode))
    · exact hviolates (hnone node (Ast.mem_walk.mpr hnode))

/-- A tree that rebinds is rejected exactly as long as a rebinding in a form that the check does
not look at comes with one that it does, or with a violation of another rule. -/
theorem rebinding_rejected_iff (parse : String → Except String Ast) (code : String) (tree : Ast)
    (h : parse code = .ok tree) :
    (tree.Rebinds → (staticSafetyCheck parse code).passed = false) ↔
      (tree.RebindsOtherwise → tree.RebindsPlainly ∨ tree.BreaksOtherRule) := by
  rw [staticSafetyCheck_rejects_iff h, Ast.rebinds_iff]
  constructor
  · exact fun himp hother ↦ himp (.inr hother)
  · rintro himp (hplain | hother)
    · exact .inl hplain
    · exact himp hother

/-- `vbt.Portfolio.from_signals`. -/
def fromSignals : Ast := .attribute (.attribute (.name "vbt") "Portfolio") "from_signals"

/-- A plain rebinding, and its tree. -/
def plainRebinding : String × Ast :=
  ("vbt.Portfolio.from_signals = f", .other [.assign 1 [fromSignals] (.name "f")])

/-- Rebindings by an annotated assignment, a tuple target, a `for` and a `del`, and their trees. -/
def uncheckedRebindings : List (String × Ast) :=
  [("vbt.Portfolio.from_signals: object = f",
      .other [.annAssign 1 fromSignals (.name "object") (some (.name "f"))]),
    ("vbt.Portfolio.from_signals, x = f, 1",
      .other [.assign 1 [.tuple [fromSignals, .name "x"]] (.tuple [.name "f", .constant (.int 1)])]),
    ("for vbt.Portfolio.from_signals in [f]: pass",
      .other [.forLoop false 1 fromSignals (.list [.name "f"]) [.other []] []]),
    ("del vbt.Portfolio.from_signals", .other [.delete 1 [fromSignals]])]

/-- What `ast.parse` makes of these texts. -/
def parseRebinding (code : String) : Except String Ast :=
  match (plainRebinding :: uncheckedRebindings).lookup code with
  | some tree => .ok tree
  | none => .error "invalid syntax (<unknown>, line 1)"

theorem plainRebinding_rejected :
    (staticSafetyCheck parseRebinding plainRebinding.1).passed = false := by
  have hnode : Within Ast.children (.assign 1 [fromSignals] (.name "f")) plainRebinding.2 :=
    .single (by simp [plainRebinding, Ast.children])
  have hplain : plainRebinding.2.RebindsPlainly :=
    ⟨_, hnode, rfl, fromSignals, List.mem_singleton_self _, by decide⟩
  exact (rebinding_rejected_iff parseRebinding plainRebinding.1 plainRebinding.2 rfl).mpr
    (fun _ ↦ .inl hplain) (Ast.rebinds_iff.mpr (.inl hplain))

theorem unchecked_rebindings_accepted : uncheckedRebindings.Forall fun rebinding ↦
    parseRebinding rebinding.1 = .ok rebinding.2 ∧ rebinding.2.Rebinds ∧
      staticSafetyCheck parseRebinding rebinding.1 = ⟨true, []⟩ := by
  refine List.forall_iff_forall_mem.mpr fun rebinding hrebinding ↦ ?_
  have hnode (statement : Ast) : Within Ast.children statement (.other [statement]) :=
    .single (by simp [Ast.children])
  have hprotected : fromSignals.isProtected := by decide
  simp only [uncheckedRebindings, List.mem_cons, List.not_mem_nil, or_false] at hrebinding
  rcases hrebinding with rfl | rfl | rfl | rfl
  · exact ⟨rfl, ⟨_, hnode _, fromSignals, List.mem_singleton_self _, _, .self _, hprotected⟩,
      by decide⟩
  · exact ⟨rfl, ⟨_, hnode _, _, List.mem_singleton_self _, fromSignals,
      .tuple List.mem_cons_self (.self _), hprotected⟩, by decide⟩
  · exact ⟨rfl, ⟨_, hnode _, fromSignals, List.mem_singleton_self _, _, .self _, hprotected⟩,
      by decide⟩
  · exact ⟨rfl, ⟨_, hnode _, fromSignals, List.mem_singleton_self _, _, .self _, hprotected⟩,
      by decide⟩

end TradingOS.Agents
