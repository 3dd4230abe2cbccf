import Vince.VirtualHost

/-!
# Grouping servers by address, and listening (`process` in `ngx_startup.go`)

The loops of `process`: servers are grouped by the addresses of their `listen` directives, each
address gets a listener, then a server, and then all servers are started. What `parseListen` makes
of a directive and what the calls that open a listener return are parameters. Go goes through a
map in any order, and each of the last three loops has an order of its own.
-/

namespace Listeners

open GoText ConfigParse ServerRules VirtualHost

/-! ## Grouping -/

variable (listen : Rule → ListenOpts)

def listens (v : Rule) : List Rule := v.children.filter (·.name = "listen".toList)

/-- `findListener` for any reading of the directives. -/
def findListenerBy (v : Rule) : List ListenOpts := (listens v).map listen

/-- The grouping loops of `process`. -/
def group (core : Rule) : ServerCtx Rule :=
  (servers core).foldl (fun s v => (findListenerBy listen v).foldl (ServerCtx.addListener v) s)
    ServerCtx.init

theorem group_parseListen (net : NetFuncs) (port : Text) (core : Rule) :
    group (parseListen net · port) core = ServerCtx.init.process net port (servers core) := rfl

/-- All listen options in the order of the configuration. -/
def allOptions (core : Rule) : List ListenOpts :=
  (servers core).flatMap (findListenerBy listen)

/-- The servers in their order, each once for each of its directives that resolves to `a`. -/
def serversAt (core : Rule) (a : Text) : List Rule :=
  (servers core).flatMap fun v =>
    ((listens v).filter fun r => (listen r).addrPort = a).map fun _ => v

/-- What a map holds for a list that has been appended to. -/
def nonempty (rules : List Rule) : Option (List Rule) := if rules.isEmpty then none else some rules

def rulesAt (read : List (Rule × ListenOpts)) (a : Text) : List Rule :=
  (read.filter (·.2.addrPort = a)).map (·.1)

/-- Both maps for the directives read so far, as pairs of a server and its options. -/
structure Grouped (read : List (Rule × ListenOpts)) (s : ServerCtx Rule) : Prop where
  address_eq : ∀ a, s.address.lookup a = (read.map (·.2)).find? (·.addrPort = a)
  rules_eq : ∀ a, s.serverRules.lookup a = nonempty (rulesAt read a)

variable {listen} {read : List (Rule × ListenOpts)} {s : ServerCtx Rule} {v : Rule}
  {ls : ListenOpts} {core : Rule}

theorem grouped_init : Grouped [] ServerCtx.init := ⟨fun _ => rfl, fun _ => rfl⟩

theorem lookup_concat {α : Type} (table : List (Text × α)) (key a : Text) (value : α) :
    (table ++ [(key, value)]).lookup a =
      (table.lookup a).or (if a = key then some value else none) := by
  rw [List.lookup_append]
  by_cases same : a = key
  · simp [same]
  · rw [lookup_cons_of_ne same, if_neg same]
    rfl

theorem find_concat (options : List ListenOpts) (ls : ListenOpts) (a : Text) :
    (options ++ [ls]).find? (·.addrPort = a) =
      (options.find? (·.addrPort = a)).or (if a = ls.addrPort then some ls else none) := by
  rw [List.find?_append]
  by_cases same : a = ls.addrPort
  · simp [same]
  · simp [same, Ne.symm same]

/-- The options of an address stay those of its first directive. -/
theorem lookup_addListener_address (s : ServerCtx Rule) (v : Rule) (ls : ListenOpts) (a : Text) :
    (s.addListener v ls).address.lookup a =
      (s.address.lookup a).or (if a = ls.addrPort then some ls else none) := by
  rw [ServerCtx.addListener]
  cases known : s.address.lookup ls.addrPort with
  | none => exact lookup_concat s.address ls.addrPort a ls
  | some first =>
    by_cases same : a = ls.addrPort
    · rw [same, known]
      rfl
    · rw [if_neg same, Option.or_none]

theorem rulesAt_concat (read : List (Rule × ListenOpts)) (v : Rule) (ls : ListenOpts) (a : Text) :
    rulesAt (read ++ [(v, ls)]) a =
      if a = ls.addrPort then rulesAt read a ++ [v] else rulesAt read a := by
  by_cases same : a = ls.addrPort
  · simp [rulesAt, same]
  · simp [rulesAt, same, Ne.symm same]

theorem nonempty_concat (rules : List Rule) (v : Rule) :
    nonempty (rules ++ [v]) = some ((nonempty rules).getD [] ++ [v]) := by
  cases rules <;> rfl

theorem grouped_addListener (grouped : Grouped read s) (v : Rule) (ls : ListenOpts) :
    Grouped (read ++ [(v, ls)]) (s.addListener v ls) := by
  constructor
  · intro a
    rw [lookup_addListener_address, grouped.address_eq, List.map_append]
    exact (find_concat _ ls a).symm
  · intro a
    have rules : (s.addListener v ls).serverRules = addExact ls.addrPort v s.serverRules := rfl
    rw [rules, lookup_addExact, grouped.rules_eq, grouped.rules_eq, rulesAt_concat]
    by_cases same : a = ls.addrPort
    · rw [if_pos same, if_pos same, nonempty_concat, same]
    · rw [if_neg same, if_neg same]

/-- The pairs that the two loops go through. -/
def pairs (listen : Rule → ListenOpts) (core : Rule) : List (Rule × ListenOpts) :=
  (servers core).flatMap fun v => (findListenerBy listen v).map (Prod.mk v)

theorem group_eq_foldl (listen : Rule → ListenOpts) (core : Rule) :
    group listen core =
      (pairs listen core).foldl (fun s pair => s.addListener pair.1 pair.2) ServerCtx.init := by
  rw [pairs, List.foldl_flatMap, group]
  simp only [List.foldl_map]

theorem grouped_foldl (more : List (Rule × ListenOpts)) (grouped : Grouped read s) :
    Grouped (read ++ more) (more.foldl (fun s pair => s.addListener pair.1 pair.2) s) := by
  induction more generalizing read s with
  | nil => rwa [List.append_nil]
  | cons pair more ih =>
    have rest := ih (grouped_addListener grouped pair.1 pair.2)
    rwa [List.append_assoc] at rest

theorem grouped_group (listen : Rule → ListenOpts) (core : Rule) :
    Grouped (pairs listen core) (group listen core) := by
  rw [group_eq_foldl]
  exact grouped_foldl (pairs listen core) grouped_init

theorem pairs_options : (pairs listen core).map (·.2) = allOptions listen core := by
  simp [pairs, allOptions, List.map_flatMap, Function.comp_def]

theorem rulesAt_pairs (a : Text) : rulesAt (pairs listen core) a = serversAt listen core a := by
  simp [rulesAt, pairs, serversAt, findListenerBy, List.filter_flatMap, List.map_flatMap,
    List.filter_map, Function.comp_def]

theorem nonempty_isSome (rules : List Rule) : (nonempty rules).isSome = true ↔ rules ≠ [] := by
  cases rules <;> simp [nonempty]

/-- An address has options exactly if it has servers. -/
theorem Grouped.isSome_eq (grouped : Grouped read s) (a : Text) :
    (s.address.lookup a).isSome = (s.serverRules.lookup a).isSome := by
  have resolved : rulesAt read a ≠ [] ↔ ∃ ls ∈ read.map (·.2), ls.addrPort = a := by
    rw [rulesAt, ne_eq, List.map_eq_nil_iff, List.filter_eq_nil_iff]
    constructor
    · intro found
      simp only [not_forall, not_not, decide_eq_true_eq] at found
      obtain ⟨pair, mem, same⟩ := found
      exact ⟨pair.2, List.mem_map_of_mem mem, same⟩
    · rintro ⟨ls, mem, same⟩ nothing
      obtain ⟨pair, read, rfl⟩ := List.mem_map.mp mem
      exact nothing pair read (by simpa using same)
  rw [Bool.eq_iff_iff, grouped.address_eq, grouped.rules_eq, nonempty_isSome, List.find?_isSome,
    resolved]
  simp only [decide_eq_true_eq]

theorem Grouped.addrPort_eq (grouped : Grouped read s) {a : Text} {ls : ListenOpts}
    (found : s.address.lookup a = some ls) : ls.addrPort = a := by
  rw [grouped.address_eq] at found
  simpa using List.find?_some found

/-- The maps after the grouping loops, for every main rule. -/
theorem grouping_exact (listen : Rule → ListenOpts) (core : Rule) (a : Text) :
    (group listen core).serverRules.lookup a = nonempty (serversAt listen core a) ∧
      ((group listen core).address.lookup a).isSome =
        ((group listen core).serverRules.lookup a).isSome ∧
      (group listen core).address.lookup a =
        (allOptions listen core).find? (·.addrPort = a) := by
  have grouped := grouped_group listen core
  have rules := grouped.rules_eq a
  have address := grouped.address_eq a
  rw [rulesAt_pairs] at rules
  rw [pairs_options] at address
  exact ⟨rules, grouped.isSome_eq a, address⟩

/-! ## Listening -/

/-- What the calls that open a listener give: `sslOpts.config` for the options of an address,
`tls.Listen` and `net.Listen` for a network and an address. -/
structure Calls (E C L : Type) where
  config : ListenOpts → Except E C
  tlsListen : Text → Text → C → Except E L
  netListen : Text → Text → Except E L

/-- How `process` ends without returning nil. -/
inductive Stop (E : Type) where
  | returned (err : E)
  | panicked (fault : Fault)

/-- An order in which the entries of a map are visited. -/
structure Order where
  visit : {α : Type} → List α → List α
  perm : ∀ {α : Type} (entries : List α), (visit entries).Perm entries

/-- The maps `listeners` and `servers`. A listener can be nil; of a server we keep the tables of
its handler. -/
structure Serving (L : Type) where
  listeners : List (Text × Option L)
  servers : List (Text × HandlerMatch Rule)

/-- An assignment to a map. -/
def assign {α : Type} (key : Text) (value : α) (table : List (Text × α)) : List (Text × α) :=
  (key, value) :: table.filter (·.1 ≠ key)

section Process

variable {E C L : Type} (calls : Calls E C L) (s : ServerCtx Rule)

/-- `srvCtx.http.address[k]`. -/
def optionsAt (k : Text) : ListenOpts := (s.address.lookup k).getD {}

/-- The listener for one address. -/
def openListener (opts : ListenOpts) : Except (Stop E) (Option L) :=
  if opts.ssl then
    match calls.config opts with
    | .error err => .error (.returned err)
    -- the `err` assigned here is that of the inner block, and the test looks at the outer one
    | .ok c => .ok (calls.tlsListen opts.net opts.addrPort c).toOption
  else match calls.netListen opts.net opts.addrPort with
    | .error err => .error (.returned err)
    | .ok l => .ok (some l)

/-- `createHTTPServer` with `vinceHandler(rules)`: it reports no error, but building the tables of
the handler can panic. -/
def createServer (opts : ListenOpts) (rules : List Rule) : Except (Stop E) (HandlerMatch Rule) :=
  match handlerTables rules (s.with opts) with
  | .error fault => .error (.panicked fault)
  | .ok tables => .ok tables

/-- The line that prints the address of a listener, for each server. -/
def announce (listeners : List (Text × Option L)) (entry : Text × HandlerMatch Rule) :
    Except (Stop E) Unit :=
  match (listeners.lookup entry.1).join with
  | none => .error (.panicked .nilDereference)
  | some _ => .ok ()

def listenLoop (entries : List (Text × List Rule)) (listeners : List (Text × Option L)) :
    Except (Stop E) (List (Text × Option L)) :=
  entries.foldlM (fun listeners entry => do
    let opts := optionsAt s entry.1
    let l ← openListener calls opts
    .ok (assign opts.addrPort l listeners)) listeners

def serverLoop (entries : List (Text × List Rule)) (servers : List (Text × HandlerMatch Rule)) :
    Except (Stop E) (List (Text × HandlerMatch Rule)) :=
  entries.foldlM (fun servers entry => do
    let opts := optionsAt s entry.1
    let srv ← createServer s opts entry.2
    .ok (assign opts.addrPort srv servers)) servers

/-- What follows the grouping loops: `.ok` is a return of nil. -/
def startServers (first second third : Order) (http : Serving L) :
    Except (Stop E) (Serving L) := do
  let listeners ← listenLoop calls s (first.visit s.serverRules) http.listeners
  let servers ← serverLoop s (second.visit s.serverRules) http.servers
  (third.visit servers).forM (announce listeners)
  .ok ⟨listeners, servers⟩

end Process

theorem Order.mem_visit {α : Type} (order : Order) {entries : List α} {entry : α} :
    entry ∈ order.visit entries ↔ entry ∈ entries :=
  (order.perm entries).mem_iff

theorem lookup_assign {α : Type} (key a : Text) (value : α) (table : List (Text × α)) :
    (assign key value table).lookup a = if a = key then some value else table.lookup a := by
  by_cases same : a = key
  · rw [if_pos same, assign, same, List.lookup_cons_self]
  · rw [if_neg same, assign, lookup_cons_of_ne same]
    induction table with
    | nil => rfl
    | cons entry table ih =>
      by_cases here : entry.1 = key
      · have other : a ≠ entry.1 := fun equal => same (equal.trans here)
        rw [List.filter_cons_of_neg (by simpa using here), ih]
        exact (lookup_cons_of_ne other entry.2 table).symm
      · rw [List.filter_cons_of_pos (by simpa using here), List.lookup_cons, List.lookup_cons, ih]

theorem mem_of_lookup {α : Type} {table : List (Text × α)} {key : Text} {value : α}
    (found : table.lookup key = some value) : (key, value) ∈ table := by
  obtain ⟨before, after, split, -⟩ := List.lookup_eq_some_iff.mp found
  simp [split]

theorem mem_assign {α : Type} {key : Text} {value : α} {table : List (Text × α)}
    {pair : Text × α} (mem : pair ∈ assign key value table) : key = pair.1 ∨ pair ∈ table := by
  rcases List.mem_cons.mp mem with rfl | mem
  · exact .inl rfl
  · exact .inr (List.mem_of_mem_filter mem)

/-- A loop that assigns what a call gives for each entry stops with the error of a call, or every
call has succeeded and each key holds the result of a call for that key. -/
theorem assign_loop {α β ε : Type} (key : β → Text) (call : β → Except ε α) (entries : List β)
    (table : List (Text × α)) :
    let run := entries.foldlM (fun table entry => do
      let value ← call entry
      .ok (assign (key entry) value table)) table
    (∃ entry ∈ entries, ∃ err, call entry = .error err ∧ run = .error err) ∨
      ∃ after, run = .ok after ∧ (∀ entry ∈ entries, ∃ value, call entry = .ok value) ∧
        (∀ pair ∈ after, (∃ entry ∈ entries, key entry = pair.1) ∨ pair ∈ table) ∧
        ∀ a, (after.lookup a = table.lookup a ∧ ∀ entry ∈ entries, key entry ≠ a) ∨
          ∃ entry ∈ entries, key entry = a ∧ ∃ value, call entry = .ok value ∧
            after.lookup a = some value := by
  induction entries generalizing table with
  | nil => exact .inr ⟨table, rfl, by simp, fun _ => .inr, fun a => .inl ⟨rfl, by simp⟩⟩
  | cons entry entries ih =>
    intro run
    cases called : call entry with
    | error err =>
      exact .inl ⟨entry, List.mem_cons_self, err, called, by
        simp only [run, List.foldlM_cons, called]; rfl⟩
    | ok value =>
      have next : run = entries.foldlM (fun table entry => do
          let value ← call entry
          .ok (assign (key entry) value table)) (assign (key entry) value table) := by
        simp only [run, List.foldlM_cons, called]
        rfl
      rcases ih (assign (key entry) value table) with
        ⟨failed, mem, err, error, stops⟩ | ⟨after, done, succeeded, origin, holds⟩
      · exact .inl ⟨failed, List.mem_cons_of_mem _ mem, err, error, next.trans stops⟩
      · refine .inr ⟨after, next.trans done, ?_, fun pair mem => ?_, fun a => ?_⟩
        · rw [List.forall_mem_cons]
          exact ⟨⟨value, called⟩, succeeded⟩
        · rcases origin pair mem with ⟨later, mem, same⟩ | mem
          · exact .inl ⟨later, List.mem_cons_of_mem _ mem, same⟩
          · exact (mem_assign mem).imp (fun same => ⟨entry, List.mem_cons_self, same⟩) id
        · rcases holds a with ⟨kept, others⟩ | ⟨later, mem, same, result, gave, found⟩
          · by_cases same : key entry = a
            · refine .inr ⟨entry, List.mem_cons_self, same, value, called, ?_⟩
              rw [kept, lookup_assign, if_pos same.symm]
            · refine .inl ⟨?_, ?_⟩
              · rw [kept, lookup_assign, if_neg (Ne.symm same)]
              · rw [List.forall_mem_cons]
                exact ⟨same, others⟩
          · exact .inr ⟨later, List.mem_cons_of_mem _ mem, same, result, gave, found⟩

theorem forM_ok_iff {α ε : Type} (check : α → Except ε Unit) (list : List α) :
    list.forM check = .ok () ↔ ∀ a ∈ list, check a = .ok () := by
  induction list with
  | nil => exact iff_of_true rfl (by simp)
  | cons a list ih =>
    rw [List.forall_mem_cons, ← ih]
    change (check a >>= fun _ => list.forM check) = _ ↔ _
    cases check a with
    | error err => exact iff_of_false nofun fun both => by cases both.1
    | ok => exact (and_iff_right rfl).symm

section Grouped

variable {k : Text} {opts : ListenOpts}

theorem optionsAt_eq (found : s.address.lookup k = some opts) : optionsAt s k = opts := by
  rw [optionsAt, found, Option.getD_some]

theorem Grouped.options_of_mem (grouped : Grouped read s) {entry : Text × List Rule}
    (mem : entry ∈ s.serverRules) :
    s.address.lookup entry.1 = some (optionsAt s entry.1) ∧
      (optionsAt s entry.1).addrPort = entry.1 := by
  have known : (s.serverRules.lookup entry.1).isSome = true :=
    List.lookup_isSome_iff.mpr ⟨entry, mem, beq_self_eq_true _⟩
  rw [← grouped.isSome_eq] at known
  obtain ⟨opts, found⟩ := Option.isSome_iff_exists.mp known
  rw [optionsAt_eq found]
  exact ⟨found, grouped.addrPort_eq found⟩

theorem Grouped.exists_mem (grouped : Grouped read s) (found : s.address.lookup k = some opts) :
    ∃ rules, (k, rules) ∈ s.serverRules := by
  have known : (s.serverRules.lookup k).isSome = true := by
    rw [← grouped.isSome_eq, found]
    rfl
  obtain ⟨entry, mem, same⟩ := List.lookup_isSome_iff.mp known
  rw [beq_iff_eq] at same
  exact ⟨entry.2, same ▸ mem⟩

/-- After a loop over the addresses that went through, each of them holds what its call gave. -/
theorem Grouped.assigned {α ε : Type} (grouped : Grouped read s) (order : Order)
    {call : Text × List Rule → Except ε α} {table table' : List (Text × α)}
    (run : (order.visit s.serverRules).foldlM (fun table entry => do
      let value ← call entry
      .ok (assign (optionsAt s entry.1).addrPort value table)) table = .ok table')
    (known : s.address.lookup k = some opts) :
    ∃ rules value, (k, rules) ∈ s.serverRules ∧ call (k, rules) = .ok value ∧
      table'.lookup k = some value := by
  rcases assign_loop (fun entry => (optionsAt s entry.1).addrPort) call
    (order.visit s.serverRules) table with ⟨-, -, err, -, stops⟩ | ⟨after, done, -, -, holds⟩
  · cases stops.symm.trans run
  · cases done.symm.trans run
    rcases holds k with ⟨-, others⟩ | ⟨entry, mem, same, value, gave, found⟩
    · obtain ⟨rules, mem⟩ := grouped.exists_mem known
      exact absurd (grouped.options_of_mem mem).2 (others (k, rules) (order.mem_visit.mpr mem))
    · have own := (grouped.options_of_mem (order.mem_visit.mp mem)).2
      obtain ⟨address, rules⟩ := entry
      obtain rfl : address = k := own.symm.trans same
      exact ⟨rules, value, order.mem_visit.mp mem, gave, found⟩

end Grouped

/-! ## What a return of nil means -/

section Outcome

variable {E C L : Type} (calls : Calls E C L)

/-- The calls for an address succeed. -/
def Succeeds (opts : ListenOpts) : Prop :=
  if opts.ssl then
    ∃ c, calls.config opts = .ok c ∧ ∃ l, calls.tlsListen opts.net opts.addrPort c = .ok l
  else ∃ l, calls.netListen opts.net opts.addrPort = .ok l

variable {calls} {first second third : Order} {http http' : Serving L} {opts : ListenOpts}

/-- A listener is stored that is not nil exactly if the calls succeed. -/
theorem openListener_some_iff :
    (∃ l, openListener calls opts = .ok (some l)) ↔ Succeeds calls opts := by
  rw [openListener, Succeeds]
  by_cases ssl : opts.ssl = true
  · rw [if_pos ssl, if_pos ssl]
    cases calls.config opts with
    | error err => simp
    | ok c =>
      cases opened : calls.tlsListen opts.net opts.addrPort c <;> simp [opened, Except.toOption]
  · rw [if_neg ssl, if_neg ssl]
    cases calls.netListen opts.net opts.addrPort <;> simp

theorem startServers_ok (run : startServers calls s first second third http = .ok http') :
    listenLoop calls s (first.visit s.serverRules) http.listeners = .ok http'.listeners ∧
      serverLoop (E := E) s (second.visit s.serverRules) http.servers = .ok http'.servers ∧
      ∀ entry ∈ http'.servers, announce (E := E) http'.listeners entry = .ok () := by
  rw [startServers] at run
  cases listening : listenLoop calls s (first.visit s.serverRules) http.listeners with
  | error stop =>
    rw [listening] at run
    cases run
  | ok listeners =>
    rw [listening] at run
    cases created : serverLoop (E := E) s (second.visit s.serverRules) http.servers with
    | error stop =>
      rw [created] at run
      cases run
    | ok servers =>
      rw [created] at run
      cases announced : (third.visit servers).forM (announce (E := E) listeners) with
      | error stop =>
        simp only [bind, Except.bind, announced] at run
        cases run
      | ok =>
        simp only [bind, Except.bind, announced] at run
        cases run
        refine ⟨rfl, rfl, fun entry mem => ?_⟩
        exact (forM_ok_iff _ _).mp announced entry (third.mem_visit.mpr mem)

theorem listening_of_ok {k : Text} (grouped : Grouped read s)
    (run : startServers calls s first second third http = .ok http')
    (known : s.address.lookup k = some opts) :
    Succeeds calls opts ∧ (∃ l, http'.listeners.lookup k = some (some l)) ∧
      ∃ srv, http'.servers.lookup k = some srv := by
  obtain ⟨listening, created, announced⟩ := startServers_ok run
  obtain ⟨rules, value, -, opened, stored⟩ := grouped.assigned first listening known
  obtain ⟨-, srv, -, -, served⟩ := grouped.assigned second created known
  have announced' := announced (k, srv) (mem_of_lookup served)
  rw [announce, stored] at announced'
  cases value with
  | none => cases announced'
  | some l =>
    rw [optionsAt_eq known] at opened
    exact ⟨openListener_some_iff.mp ⟨l, opened⟩, ⟨l, stored⟩, srv, served⟩

/-- `sslOpts.config` or `net.Listen` fails for the address. -/
def Refused (calls : Calls E C L) (opts : ListenOpts) : Prop :=
  if opts.ssl then ∃ err, calls.config opts = .error err
  else ∃ err, calls.netListen opts.net opts.addrPort = .error err

theorem openListener_error_iff :
    (∃ stop, openListener calls opts = .error stop) ↔ Refused calls opts := by
  rw [openListener, Refused]
  by_cases ssl : opts.ssl = true
  · rw [if_pos ssl, if_pos ssl]
    cases calls.config opts <;> simp
  · rw [if_neg ssl, if_neg ssl]
    cases calls.netListen opts.net opts.addrPort <;> simp

theorem openListener_error {stop : Stop E} (failed : openListener calls opts = .error stop) :
    ∃ err, stop = .returned err := by
  rw [openListener] at failed
  split at failed
  · split at failed
    · cases failed
      exact ⟨_, rfl⟩
    · cases failed
  · split at failed
    · cases failed
      exact ⟨_, rfl⟩
    · cases failed

/-- An address that `sslOpts.config` or `net.Listen` refuses ends `process` with an error. -/
theorem refused_returns_error (listen : Rule → ListenOpts) (core : Rule)
    (first second third : Order) (http : Serving L) {k : Text}
    (known : (group listen core).address.lookup k = some opts) (refused : Refused calls opts) :
    ∃ err, startServers calls (group listen core) first second third http =
      .error (.returned err) := by
  have grouped := grouped_group listen core
  cases listening : listenLoop calls (group listen core)
      (first.visit (group listen core).serverRules) http.listeners with
  | ok listeners =>
    obtain ⟨rules, value, -, opened, -⟩ := grouped.assigned first listening known
    obtain ⟨stop, failed⟩ := openListener_error_iff.mpr refused
    rw [optionsAt_eq known, failed] at opened
    cases opened
  | error stop =>
    rcases assign_loop (fun entry => (optionsAt (group listen core) entry.1).addrPort)
      (fun entry => openListener calls (optionsAt (group listen core) entry.1))
      (first.visit (group listen core).serverRules) http.listeners with
      ⟨entry, -, stop', failed, stops⟩ | ⟨after, done, -⟩
    · obtain ⟨err, rfl⟩ := openListener_error failed
      cases stops.symm.trans listening
      refine ⟨err, ?_⟩
      rw [startServers, listening]
      rfl
    · cases done.symm.trans listening

theorem announce_ok_iff {listeners : List (Text × Option L)} {entry : Text × HandlerMatch Rule} :
    announce (E := E) listeners entry = .ok () ↔ ∃ l, listeners.lookup entry.1 = some (some l) := by
  rw [announce]
  rcases listeners.lookup entry.1 with _ | _ | l <;> simp

/-- The listeners when all calls succeed: new ones for the addresses, the others as they were. -/
theorem listenLoop_of_succeeds (grouped : Grouped read s) (order : Order)
    (before : List (Text × Option L))
    (succeeds : ∀ k opts, s.address.lookup k = some opts → Succeeds calls opts) :
    ∃ listeners, listenLoop calls s (order.visit s.serverRules) before = .ok listeners ∧
      ∀ a, (∃ l, listeners.lookup a = some (some l)) ∨
        (listeners.lookup a = before.lookup a ∧
          ∀ entry ∈ s.serverRules, (optionsAt s entry.1).addrPort ≠ a) := by
  have opens : ∀ entry ∈ order.visit s.serverRules,
      ∃ l, openListener calls (optionsAt s entry.1) = .ok (some l) := by
    intro entry mem
    have known := (grouped.options_of_mem (order.mem_visit.mp mem)).1
    exact openListener_some_iff.mpr (succeeds entry.1 _ known)
  rcases assign_loop (fun entry => (optionsAt s entry.1).addrPort)
    (fun entry => openListener calls (optionsAt s entry.1)) (order.visit s.serverRules) before with
    ⟨entry, mem, stop, failed, -⟩ | ⟨listeners, done, -, -, holds⟩
  · obtain ⟨l, opened⟩ := opens entry mem
    cases opened.symm.trans failed
  · refine ⟨listeners, done, fun a => ?_⟩
    rcases holds a with ⟨kept, others⟩ | ⟨entry, mem, -, value, gave, found⟩
    · exact .inr ⟨kept, fun entry mem => others entry (order.mem_visit.mpr mem)⟩
    · obtain ⟨l, opened⟩ := opens entry mem
      cases opened.symm.trans gave
      exact .inl ⟨l, found⟩

theorem serverLoop_of_builds (order : Order) (before : List (Text × HandlerMatch Rule))
    (builds : ∀ entry ∈ s.serverRules, ∃ tables,
      handlerTables entry.2 (s.with (optionsAt s entry.1)) = .ok tables) :
    ∃ servers, serverLoop (E := E) s (order.visit s.serverRules) before = .ok servers ∧
      ∀ entry ∈ servers, (∃ rule ∈ s.serverRules, (optionsAt s rule.1).addrPort = entry.1) ∨
        entry ∈ before := by
  rcases assign_loop (fun entry => (optionsAt s entry.1).addrPort)
    (fun entry => createServer (E := E) s (optionsAt s entry.1) entry.2)
    (order.visit s.serverRules) before with
    ⟨entry, mem, stop, failed, -⟩ | ⟨servers, done, -, origin, -⟩
  · obtain ⟨tables, built⟩ := builds entry (order.mem_visit.mp mem)
    rw [createServer, built] at failed
    cases failed
  · refine ⟨servers, done, fun entry mem => ?_⟩
    rcases origin entry mem with ⟨rule, mem, same⟩ | old
    · exact .inl ⟨rule, order.mem_visit.mp mem, same⟩
    · exact .inr old

/-- With servers that can be built and listeners for those that were there before, `process`
returns nil exactly if all calls succeed. A `tls.Listen` that fails is not returned as an error,
but the nil listener it leaves behind ends the last loop. -/
theorem returns_nil_iff (listen : Rule → ListenOpts) (core : Rule) (first second third : Order)
    (http : Serving L)
    (before : ∀ entry ∈ http.servers, ∃ l, http.listeners.lookup entry.1 = some (some l))
    (builds : ∀ entry ∈ (group listen core).serverRules, ∃ tables,
      handlerTables entry.2 ((group listen core).with (optionsAt (group listen core) entry.1)) =
        .ok tables) :
    (∃ http', startServers calls (group listen core) first second third http = .ok http') ↔
      ∀ k opts, (group listen core).address.lookup k = some opts → Succeeds calls opts := by
  have grouped := grouped_group listen core
  constructor
  · rintro ⟨http', run⟩ k opts known
    exact (listening_of_ok grouped run known).1
  · intro succeeds
    obtain ⟨listeners, listening, holds⟩ :=
      listenLoop_of_succeeds grouped first http.listeners succeeds
    obtain ⟨servers, created, origin⟩ := serverLoop_of_builds (E := E) second http.servers builds
    have announced : (third.visit servers).forM (announce (E := E) listeners) = .ok () := by
      rw [forM_ok_iff]
      intro entry mem
      rw [announce_ok_iff]
      rcases holds entry.1 with opened | ⟨kept, others⟩
      · exact opened
      · rcases origin entry (third.mem_visit.mp mem) with ⟨rule, mem, same⟩ | mem
        · exact absurd same (others rule mem)
        · obtain ⟨l, found⟩ := before entry mem
          exact ⟨l, kept.trans found⟩
    refine ⟨⟨listeners, servers⟩, ?_⟩
    rw [startServers, listening]
    simp only [bind, Except.bind, created, announced]

end Outcome

/-- If `process` returns nil, all calls have succeeded, and every address has a listener that is
not nil and a server. -/
theorem returns_nil_only_if_listening {E C L : Type} (listen : Rule → ListenOpts) (core : Rule)
    (calls : Calls E C L) (first second third : Order) (http http' : Serving L)
    (run : startServers calls (group listen core) first second third http = .ok http') :
    ∀ k opts, (group listen core).address.lookup k = some opts →
      Succeeds calls opts ∧ (∃ l, http'.listeners.lookup k = some (some l)) ∧
        ∃ srv, http'.servers.lookup k = some srv :=
  fun _ _ known => listening_of_ok (grouped_group listen core) run known

private def inOrder : Order := ⟨id, fun _ => .refl _⟩

private def listenRule (args : List Text) : Rule := ⟨"listen".toList, args, []⟩

private def twoAddresses : Rule :=
  ⟨"main".toList, [], [⟨"http".toList, [],
    [⟨"server".toList, [], [listenRule [['a']], listenRule [['b'], "ssl".toList]]⟩]⟩]⟩

private def readListen (r : Rule) : ListenOpts :=
  { addrPort := r.args.headD [], ssl := r.args.length = 2 }

private def allWorks : Calls Unit Unit Nat :=
  ⟨fun _ => .ok (), fun _ _ _ => .ok 1, fun _ _ => .ok 0⟩

/-- A server on two addresses, the second with TLS. -/
theorem returns_nil_sample :
    ∃ http', startServers allWorks (group readListen twoAddresses) inOrder inOrder inOrder
        ⟨[], []⟩ = .ok http' ∧
      (∃ l, http'.listeners.lookup ['b'] = some (some l)) ∧
        ∃ srv, http'.servers.lookup ['b'] = some srv :=
  ⟨_, rfl, (returns_nil_only_if_listening readListen twoAddresses allWorks inOrder inOrder inOrder
    ⟨[], []⟩ _ rfl ['b'] _ rfl).2⟩

-- a `tls.Listen` that fails: `process` neither returns nil nor the error
example : startServers { allWorks with tlsListen := fun _ _ _ => .error () }
    (group readListen twoAddresses) inOrder inOrder inOrder ⟨[], []⟩ =
      .error (.panicked .nilDereference) := rfl

end Listeners
