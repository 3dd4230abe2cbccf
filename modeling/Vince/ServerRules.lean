import Vince.ConfigParse
import Vince.LastWrites

/-!
# Rules and server names (`ngx_startup.go`)

The rule tree that the server works on, the list of servers `process` takes from it, and the
name tables `handlerMatch.init` builds. A rule's parent pointer is left out of the tree;
`Place` has it where it is followed. What only reads rules is written for any kind of pointers to
them, the trees themselves and the addresses of `RuleHeap` among them, so that two servers with
the same block are two. Patterns of server names are taken to compile.
-/

namespace ServerRules

open GoText ConfigAnalyze ConfigParse

structure Rule where
  name : Text
  args : List Text
  children : List Rule

/-- What is read through a `*rule`. -/
class RulePtr (P : Type) where
  name : P → Text
  args : P → List Text
  children : P → List P

instance : RulePtr Rule := ⟨Rule.name, Rule.args, Rule.children⟩

mutual

def ruleFromStmt : Stmt → Rule
  | ⟨directive, _, _, args, _, _, none⟩ => ⟨directive, args, []⟩
  | ⟨directive, _, _, args, _, _, some body⟩ => ⟨directive, args, rulesFromStmts body⟩
termination_by structural stmt => stmt

/-- The loop over the block of a statement. -/
def rulesFromStmts : List Stmt → List Rule
  | [] => []
  | stmt :: rest => ruleFromStmt stmt :: rulesFromStmts rest
termination_by structural stmts => stmts

end

theorem rulesFromStmts_eq_map (stmts : List Stmt) :
    rulesFromStmts stmts = stmts.map ruleFromStmt := by
  induction stmts with
  | nil => rfl
  | cons stmt rest ih => rw [rulesFromStmts, ih, List.map_cons]

/-- The rule of the main block, as `startEverything` has it built. -/
def core (parsed : List Stmt) : Rule :=
  ruleFromStmt ⟨"main".toList, [], 0, [], [], [], some parsed⟩

/-- The server blocks of one rule of the main block. -/
def serversIn (base : Rule) : List Rule :=
  if base.name = "http".toList then base.children.filter (·.name = "server".toList) else []

/-- The list of servers at the start of `process`. -/
def servers (core : Rule) : List Rule := core.children.flatMap serversIn

/-! ## Where a rule stands -/

/-- A parent of the rule under consideration, with its children up to that rule. -/
structure Parent where
  name : Text
  args : List Text
  before : List Rule

/-- A rule with its parents, the nearest first. -/
structure Place where
  rule : Rule
  parents : List Parent

/-- `collect(n)` with the pointer of a child `n`, called on each parent in turn. -/
def collectBefore : List Parent → List Rule
  | [] => []
  | parent :: parents => collectBefore parents ++ parent.before

/-- `collect(nil)`. -/
def Place.collect (place : Place) : List Rule :=
  collectBefore place.parents ++ place.rule.children

/-! ## Server names -/

variable {P : Type}

structure HandlerMatch (P : Type) where
  regExp : List (Text × P)
  exact : List (Text × List P)
  wild : List (Text × P)
  defaultServer : Option P

def isWildCard (w : Text) : Bool :=
  w.contains '*' && (['*', '.'].isPrefixOf w || ['.', '*'].isSuffixOf w)

/-- `h.exact[a]` gets one more server. -/
def addExact (a : Text) (srv : P) : List (Text × List P) → List (Text × List P)
  | [] => [(a, [srv])]
  | (key, rules) :: entries =>
    if key = a then (key, rules ++ [srv]) :: entries else (key, rules) :: addExact a srv entries

def setWild (a : Text) (srv : P) (wild : List (Text × P)) : List (Text × P) :=
  (a, srv) :: wild.filter (·.1 ≠ a)

/-- One argument of a `server_name`. The first byte is read before anything else. -/
def HandlerMatch.addName (srv : P) (h : HandlerMatch P) : Text → Except Fault (HandlerMatch P)
  | [] => .error .indexOutOfRange
  | '~' :: pattern => .ok { h with regExp := h.regExp ++ [(pattern, srv)] }
  | a =>
    if isWildCard a then .ok { h with wild := setWild a srv h.wild }
    else .ok { h with exact := addExact a srv h.exact }

theorem addName_ok_iff (srv : P) (h : HandlerMatch P) (a : Text) :
    (∃ h', h.addName srv a = .ok h') ↔ a ≠ [] := by
  rw [HandlerMatch.addName.eq_def]
  split
  · simp
  · simp
  · split <;> simp_all

variable [RulePtr P]

/-- The arguments that `init` reads for a server: those of its first `server_name`. -/
def serverNames (srv : P) : List Text :=
  match (RulePtr.children srv).find? (RulePtr.name · = "server_name".toList) with
  | none => []
  | some ch => RulePtr.args ch

def HandlerMatch.init (servers : List P) (defaultServer : Option P) :
    Except Fault (HandlerMatch P) :=
  servers.foldlM (fun h srv => (serverNames srv).foldlM (HandlerMatch.addName srv) h)
    ⟨[], [], [], defaultServer⟩

/-- `init` returns exactly when no server name it reads is empty. -/
theorem init_ok_iff (servers : List P) (defaultServer : Option P) :
    (∃ h, HandlerMatch.init servers defaultServer = .ok h) ↔
      ∀ srv ∈ servers, ∀ a ∈ serverNames srv, a ≠ [] :=
  LastWrites.foldlM_ok_iff
    (fun h srv => LastWrites.foldlM_ok_iff (addName_ok_iff srv) (serverNames srv) h) servers _

end ServerRules
