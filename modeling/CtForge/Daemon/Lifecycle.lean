import CtForge.Daemon.Registry

/-!
# The calls into a payload module (`ctforged.c`, `payload.c`)

Three requests call functions of a module: `insmod` its `init`, `rmmod` its `exit`, and
`mod` any function the client names. Each insmod is a load of its own; `Life` keeps the
calls of a run, with the load they belong to and the symbol they were found under.

The life of one load is `Lifetime`, and `run_ops` relates the runs to the requests of
`Payload`.
-/

namespace CtForge.Payload

open CLang IntrusiveList List Function Option

/-! ## mod -/

/-- The symbol that `mod_find_sym` looks up. -/
def modSymbol (name sym : Bytes) : Bytes :=
  snprintf pathMax (lit "ctforge_" ++ name ++ lit "_" ++ sym)

/-- What one `ops_mod` meets: memory for its copies, whether `dlsym` finds the symbol, and
the text of the JSON that the function returns, where `none` is a null pointer. -/
structure ModCall where
  memory : Bool
  symbol : Bool
  result : Option Bytes
  deriving Repr

/-- The `result` of `ops_mod`: a null pointer, code -1 with a message, or what the function
returned. -/
inductive ModAnswer where
  | nothing
  | failure (msg : Bytes)
  | returned (json : Bytes)
  deriving DecidableEq, Repr

/-- What `ops_mod` itself returns. -/
def ModAnswer.ret : ModAnswer → Int
  | .nothing => -1
  | _ => 0

/-- The second word of a `mod` request, `help` if there is none. -/
def subcommand : List Bytes → Bytes
  | [] => lit "help"
  | sub :: _ => sub

/-- `ops_mod`, with the address of the `module_info` and the symbol of the function that it
calls. -/
def opsMod (o : ModCall) (params : Params) (d : Daemon) :
    Except Fault (ModAnswer × Option (Nat × Bytes)) :=
  match params with
  | .absent => .ok (.failure (lit "Invalid parameter"), none)
  | .null => .ok (.failure (lit "Invalid parameter"), none)
  | .text msg =>
    if o.memory = false then .ok (.nothing, none)
    else
      match (strtok (fun c => c = 32) msg).take 10 with
      | [] => .ok (.failure (lit "Invalid parameter"), none)
      | name :: words => do
        match ← findModule d name with
        | none => .ok (.failure (snprintf 128 (lit "module '" ++ name ++ lit "' not found!")), none)
        | some .moduleListHead => .error .outOfBounds
        | some (.module addr) => do
          let _ ← d.heap.read addr
          let sym := subcommand words
          if o.symbol = false then
            .ok (.failure (snprintf 128
              (lit "mod '" ++ name ++ lit "' symbol '" ++ sym ++ lit "' not found")), none)
          else
            let answer := match o.result with
              | some json => .returned json
              | none => .failure (lit "Internal error")
            .ok (answer, some (addr, modSymbol name sym))

/-! ## Calls and loads -/

/-- One insmod: its place among the insmods of the run, and the name it was given. -/
structure Load where
  id : Nat
  name : Bytes
  deriving DecidableEq, Repr

inductive Caller where
  | insmod
  | rmmod
  | mod
  deriving DecidableEq, Repr

/-- A call of a function of a module; `ok` says of a call of `init` that it reported
success. -/
structure Call where
  load : Load
  symbol : Bytes
  caller : Caller
  ok : Bool
  deriving DecidableEq, Repr

inductive Fn where
  | init
  | exit
  | other
  deriving DecidableEq, Repr

def Call.fn (c : Call) : Fn :=
  if c.symbol = modSymbol c.load.name (lit "init") then .init
  else if c.symbol = modSymbol c.load.name (lit "exit") then .exit
  else .other

/-- The calls that are made through `module_ops`, whose functions were found under the name
of the load. -/
def Event.toCall (load : Load) (caller : Caller) (ok : Bool) : Event → Option Call
  | .initCalled _ => some ⟨load, modSymbol load.name (lit "init"), caller, ok⟩
  | .exitCalled _ => some ⟨load, modSymbol load.name (lit "exit"), caller, ok⟩
  | _ => none

/-- The calls that the daemon logged between two states, oldest first. -/
def newCalls (d d' : Daemon) : List Event :=
  (d'.calls.take (d'.calls.length - d.calls.length)).reverse

/-- The daemon with the calls of the run, oldest first, the load whose `module_info` an
address held last, and the number of insmods. -/
structure Life where
  daemon : Daemon
  loadAt : Nat → Load
  serial : Nat
  calls : List Call

def Life.boot : Life where
  daemon := Daemon.boot
  loadAt := fun _ => ⟨0, []⟩
  serial := 0
  calls := []

inductive Op where
  | insmod (name : Bytes) (o : Insmod)
  | rmmod (name : Bytes) (o : Rmmod)
  | mod (params : Params) (o : ModCall)

namespace Life

/-- The load of the module that `find_module` finds. -/
def loadFound (s : Life) (name : Bytes) : Load :=
  match findModule s.daemon name with
  | .ok (some (.module addr)) => s.loadAt addr
  | _ => ⟨0, []⟩

variable (w : World)

def step (s : Life) : Op → Except Fault Life
  | .insmod name o => do
    let (_, d) ← doOneInsmod w o name s.daemon
    let load : Load := ⟨s.serial, name⟩
    .ok {
      daemon := d
      loadAt := Function.update s.loadAt (w.allocator.malloc s.daemon.heap.addrs) load
      serial := s.serial + 1
      calls := s.calls ++ (newCalls s.daemon d).filterMap
        (Event.toCall load .insmod (o.initResult.code = some 0)) }
  | .rmmod name o => do
    let (_, d) ← doOneRmmod o name s.daemon
    .ok { s with
      daemon := d
      calls := s.calls ++ (newCalls s.daemon d).filterMap
        (Event.toCall (s.loadFound name) .rmmod true) }
  | .mod params o => do
    let (_, called) ← opsMod o params s.daemon
    .ok { s with
      calls := s.calls ++ called.toList.map fun c => ⟨s.loadAt c.1, c.2, .mod, true⟩ }

def run : Life → List Op → Except Fault Life
  | s, [] => .ok s
  | s, op :: ops => do
    let s ← step w s op
    run s ops

def callsOf (s : Life) (load : Load) : List Call := s.calls.filter fun c => c.load = load

def listed (s : Life) : List Load :=
  match listEntries s.daemon.links .moduleListHead (s.daemon.heap.cells.length + 1) with
  | .ok nodes => nodes.filterMap fun
    | .module addr => some (s.loadAt addr)
    | .moduleListHead => none
  | .error _ => []

/-- * `init` of a module that is listed has been called, and in the calls of every load
  `init` is the first and only the first;
* `exit` is called by an rmmod, which takes the module off the list, and nothing of the load
  is called after it;
* a mod request calls neither;
* a load whose `init` succeeded is listed unless its `exit` has been called. -/
structure Disciplined (s : Life) : Prop where
  initCalled : ∀ load ∈ s.listed, ∃ c ∈ s.calls, c.load = load ∧ c.fn = .init
  initFirst : ∀ load before c after, s.callsOf load = before ++ c :: after →
    (c.fn = .init ↔ before = [])
  exitByRmmod : ∀ c ∈ s.calls, c.fn = .exit → c.caller = .rmmod ∧ c.load ∉ s.listed
  exitLast : ∀ load before c after, s.callsOf load = before ++ c :: after → c.fn = .exit →
    after = []
  modOther : ∀ c ∈ s.calls, c.caller = .mod → c.fn = .other
  exitDue : ∀ c ∈ s.calls, c.fn = .init → c.ok = true → c.load ∉ s.listed →
    ∃ e ∈ s.calls, e.load = c.load ∧ e.fn = .exit

end Life

/-! ## Requests -/

inductive ModRequest where
  | insmod (params : Params) (o : Nat → Insmod)
  | rmmod (params : Params) (o : Nat → Rmmod)
  | mod (params : Params) (o : ModCall)

def tokenOps (op : Nat → Bytes → Op) : Nat → List Bytes → List Op
  | _, [] => []
  | i, token :: tokens => op i token :: tokenOps op (i + 1) tokens

def paramOps (op : Nat → Bytes → Op) : Params → List Op
  | .text msg => tokenOps op 0 (strtok isDelim msg)
  | _ => []

def ModRequest.ops : ModRequest → List Op
  | .insmod params o => paramOps (fun i token => .insmod token (o i)) params
  | .rmmod params o => paramOps (fun i token => .rmmod token (o i)) params
  | .mod params o => [.mod params o]

/-- A name that is loaded fits its buffer, and a mod request names neither `init` nor
`exit`. -/
def Op.Kept : Op → Prop
  | .insmod name _ => name.length < nameMax
  | .rmmod _ _ => True
  | .mod (.text msg) _ =>
    subcommand (((strtok (fun c => c = 32) msg).take 10).drop 1) ∉ [lit "init", lit "exit"]
  | .mod _ _ => True

instance (op : Op) : Decidable op.Kept := by
  unfold Op.Kept
  split <;> infer_instance

/-- The two computations fail alike, or both end with the same daemon. -/
def Agree {α : Type} (x : Except Fault Life) (y : Except Fault (α × Daemon)) : Prop :=
  (∃ e, x = .error e ∧ y = .error e) ∨ ∃ s a, x = .ok s ∧ y = .ok (a, s.daemon)

theorem agree_of_daemon {α : Type} {f : α × Daemon → Life} (hf : ∀ r, (f r).daemon = r.2)
    (y : Except Fault (α × Daemon)) : Agree (y >>= fun r => .ok (f r)) y := by
  cases y with
  | error e => exact .inl ⟨e, rfl, rfl⟩
  | ok r => exact .inr ⟨f r, r.1, rfl, by rw [hf]⟩

theorem step_insmod_agree (w : World) (s : Life) (name : Bytes) (o : Insmod) :
    Agree (Life.step w s (.insmod name o)) (doOneInsmod w o name s.daemon) :=
  agree_of_daemon (fun _ => rfl) _

theorem step_rmmod_agree (w : World) (s : Life) (name : Bytes) (o : Rmmod) :
    Agree (Life.step w s (.rmmod name o)) (doOneRmmod o name s.daemon) :=
  agree_of_daemon (fun _ => rfl) _

theorem run_tokenOps (w : World) {op : Nat → Bytes → Op}
    {f : Nat → Bytes → Daemon → Except Fault (Int × Daemon)} (success failure : String)
    (hop : ∀ s i token, Agree (Life.step w s (op i token)) (f i token s.daemon))
    (tokens : List Bytes) (i : Nat) (s : Life) :
    Agree (Life.run w s (tokenOps op i tokens))
      (eachToken f success failure i tokens s.daemon) := by
  induction tokens generalizing i s with
  | nil => exact .inr ⟨s, [], rfl, rfl⟩
  | cons token tokens ih =>
    rw [tokenOps, Life.run, eachToken]
    rcases hop s i token with ⟨e, hstep, hf⟩ | ⟨s₁, ret, hstep, hf⟩
    · rw [hstep, hf]
      exact .inl ⟨e, rfl, rfl⟩
    · rw [hstep, hf, ok_bind, ok_bind]
      dsimp only
      rcases ih (i + 1) s₁ with ⟨e, hrun, hrest⟩ | ⟨s₂, entries, hrun, hrest⟩
      · rw [hrun, hrest]
        exact .inl ⟨e, rfl, rfl⟩
      · rw [hrun, hrest]
        exact .inr ⟨s₂, _, rfl, rfl⟩

theorem run_paramOps (w : World) {op : Nat → Bytes → Op}
    {f : Nat → Bytes → Daemon → Except Fault (Int × Daemon)} (success failure : String)
    (hop : ∀ s i token, Agree (Life.step w s (op i token)) (f i token s.daemon))
    (params : Params) (s : Life) :
    Agree (Life.run w s (paramOps op params))
      ((opsTokens f success failure params s.daemon).map fun r => (r.2.1, r.2.2)) := by
  cases params with
  | absent => exact .inr ⟨s, .nothing, rfl, rfl⟩
  | null => exact .inr ⟨s, .emptyInput, rfl, rfl⟩
  | text msg =>
    rw [paramOps, opsTokens]
    rcases run_tokenOps w success failure hop (strtok isDelim msg) 0 s with
      ⟨e, hrun, hrest⟩ | ⟨s', entries, hrun, hrest⟩
    · rw [hrun, hrest]
      exact .inl ⟨e, rfl, rfl⟩
    · rw [hrun, hrest]
      exact .inr ⟨s', .mods entries, rfl, rfl⟩

/-- The operations of a request are those that `ops_insmod` and `ops_rmmod` make. -/
theorem run_ops (w : World) (s : Life) (params : Params) :
    (∀ o, Agree (Life.run w s (ModRequest.insmod params o).ops)
      ((serve w s.daemon (.insmod params o)).map fun r => (r.2.1, r.2.2))) ∧
    ∀ o, Agree (Life.run w s (ModRequest.rmmod params o).ops)
      ((serve w s.daemon (.rmmod params o)).map fun r => (r.2.1, r.2.2)) :=
  ⟨fun o => run_paramOps w _ _ (fun s i token => step_insmod_agree w s token (o i)) params s,
    fun o => run_paramOps w _ _ (fun s i token => step_rmmod_agree w s token (o i)) params s⟩

/-! ## The life of one load -/

inductive Lifetime : Bool → List Call → Prop where
  | unused : Lifetime false []
  | failed (c : Call) (init : c.fn = .init) (caller : c.caller = .insmod) (ok : c.ok = false) :
      Lifetime false [c]
  | live (c : Call) (others : List Call) (init : c.fn = .init) (caller : c.caller = .insmod)
      (other : ∀ x ∈ others, x.fn = .other) : Lifetime true (c :: others)
  | ended (c : Call) (others : List Call) (e : Call) (init : c.fn = .init)
      (caller : c.caller = .insmod) (other : ∀ x ∈ others, x.fn = .other) (exit : e.fn = .exit)
      (last : e.caller = .rmmod) : Lifetime false (c :: (others ++ [e]))

namespace Lifetime

variable {listed : Bool} {cs before after : List Call} {c : Call}

theorem init_iff (h : Lifetime listed cs) (hcs : cs = before ++ c :: after) :
    c.fn = .init ↔ before = [] := by
  have hrest : ∀ (c₀ : Call) (rest : List Call), c₀.fn = .init →
      (∀ x ∈ rest, x.fn ≠ .init) → c₀ :: rest = before ++ c :: after →
      (c.fn = .init ↔ before = []) := by
    intro c₀ rest hinit hne heq
    cases before with
    | nil =>
      obtain ⟨rfl, -⟩ := List.cons.inj heq
      exact iff_of_true hinit rfl
    | cons b before =>
      obtain ⟨-, hrest⟩ := List.cons.inj heq
      refine iff_of_false (hne c ?_) (cons_ne_nil b before)
      rw [hrest]
      exact mem_append_right before mem_cons_self
  cases h with
  | unused => exact absurd hcs (by simp)
  | failed c₀ init _ _ => exact hrest c₀ [] init (by simp) hcs
  | live c₀ others init _ other =>
    exact hrest c₀ others init (fun x hx => by simp [other x hx]) hcs
  | ended c₀ others e init _ other exit _ =>
    refine hrest c₀ (others ++ [e]) init (fun x hx => ?_) hcs
    rcases mem_append.mp hx with hx | hx
    · simp [other x hx]
    · simp [mem_singleton.mp hx, exit]

/-- Nothing of a load follows its `exit`, which rmmod called. -/
theorem exit_last (h : Lifetime listed cs) (hcs : cs = before ++ c :: after)
    (hexit : c.fn = .exit) : after = [] ∧ c.caller = .rmmod ∧ listed = false := by
  have hmem : c ∈ cs := by
    rw [hcs]
    exact mem_append_right before mem_cons_self
  cases h with
  | unused => exact absurd hmem (by simp)
  | failed c₀ init _ _ =>
    obtain rfl := mem_singleton.mp hmem
    exact absurd (hexit.symm.trans init) (by simp)
  | live c₀ others init _ other =>
    rcases mem_cons.mp hmem with rfl | hmem
    · exact absurd (hexit.symm.trans init) (by simp)
    · exact absurd (hexit.symm.trans (other c hmem)) (by simp)
  | ended c₀ others e init _ other exit last =>
    rcases eq_nil_or_concat after with rfl | ⟨after, x, rfl⟩
    · have heq : (c₀ :: others) ++ [e] = before ++ [c] := hcs
      obtain ⟨-, hlast⟩ := append_inj' heq rfl
      obtain rfl : e = c := by simpa using hlast
      exact ⟨rfl, last, rfl⟩
    · -- a call before the last is of `init` or of another function
      have heq : (c₀ :: others) ++ [e] = (before ++ c :: after) ++ [x] := by
        simpa [concat_eq_append] using hcs
      obtain ⟨hfront, -⟩ := append_inj' heq rfl
      have hin : c ∈ c₀ :: others := by
        rw [hfront]
        exact mem_append_right before mem_cons_self
      rcases mem_cons.mp hin with rfl | hin
      · exact absurd (hexit.symm.trans init) (by simp)
      · exact absurd (hexit.symm.trans (other c hin)) (by simp)

theorem other_of_mod (h : Lifetime listed cs) (hc : c ∈ cs) (hmod : c.caller = .mod) :
    c.fn = .other := by
  cases h with
  | unused => cases hc
  | failed c₀ _ caller _ =>
    obtain rfl := mem_singleton.mp hc
    exact absurd (hmod.symm.trans caller) (by simp)
  | live c₀ others _ caller other =>
    rcases mem_cons.mp hc with rfl | hc
    · exact absurd (hmod.symm.trans caller) (by simp)
    · exact other c hc
  | ended c₀ others e _ caller other _ last =>
    rcases mem_cons.mp hc with rfl | hc
    · exact absurd (hmod.symm.trans caller) (by simp)
    · rcases mem_append.mp hc with hc | hc
      · exact other c hc
      · obtain rfl := mem_singleton.mp hc
        exact absurd (hmod.symm.trans last) (by simp)

theorem exit_due (h : Lifetime false cs) (hc : c ∈ cs) (hok : c.ok = true) :
    ∃ e ∈ cs, e.fn = .exit := by
  cases h with
  | unused => cases hc
  | failed c₀ _ _ ok =>
    obtain rfl := mem_singleton.mp hc
    exact absurd (hok.symm.trans ok) (by simp)
  | ended c₀ others e _ _ _ exit _ => exact ⟨e, by simp, exit⟩

theorem init_called (h : Lifetime true cs) : ∃ c ∈ cs, c.fn = .init := by
  cases h with
  | live c others init _ _ => exact ⟨c, mem_cons_self, init⟩

theorem mod (h : Lifetime true cs) (hc : c.fn = .other) : Lifetime true (cs ++ [c]) := by
  cases h with
  | live c₀ others init caller other =>
    refine .live c₀ (others ++ [c]) init caller fun x hx => ?_
    rcases mem_append.mp hx with hx | hx
    · exact other x hx
    · rwa [mem_singleton.mp hx]

theorem rmmod (h : Lifetime true cs) (hc : c.fn = .exit) (hcaller : c.caller = .rmmod) :
    Lifetime false (cs ++ [c]) := by
  cases h with
  | live c₀ others init caller other => exact .ended c₀ others c init caller other hc hcaller

end Lifetime

/-! ## Every operation keeps the lives of all loads -/

theorem modSymbol_inj {name sub word : Bytes} (hname : name.length < nameMax)
    (hword : word.length ≤ 4) : modSymbol name sub = modSymbol name word ↔ sub = word := by
  constructor
  · intro h
    have hlit : (lit "ctforge_").length = 8 ∧ (lit "_").length = 1 := by decide
    have hshort : (lit "ctforge_" ++ name ++ lit "_" ++ word).length < pathMax - 1 := by
      simp only [length_append, hlit.1, hlit.2, pathMax]
      rw [nameMax] at hname
      omega
    rw [modSymbol, modSymbol, snprintf_eq_self (Nat.lt_of_lt_pred hshort), snprintf] at h
    have hlen := congrArg List.length h
    rw [length_take] at hlen
    rw [take_of_length_le (by omega)] at h
    exact append_cancel_left h
  · rintro rfl
    rfl

section Fn

variable {load : Load} {caller : Caller} {ok : Bool}

theorem fn_init : (⟨load, modSymbol load.name (lit "init"), caller, ok⟩ : Call).fn = .init :=
  if_pos rfl

theorem fn_exit (h : load.name.length < nameMax) :
    (⟨load, modSymbol load.name (lit "exit"), caller, ok⟩ : Call).fn = .exit := by
  have hne : modSymbol load.name (lit "exit") ≠ modSymbol load.name (lit "init") :=
    fun heq => absurd ((modSymbol_inj h (by decide)).mp heq) (by decide)
  rw [Call.fn, if_neg hne, if_pos rfl]

theorem fn_other (h : load.name.length < nameMax) {sub : Bytes}
    (hsub : sub ∉ [lit "init", lit "exit"]) :
    (⟨load, modSymbol load.name sub, caller, ok⟩ : Call).fn = .other := by
  simp only [mem_cons, not_mem_nil, or_false, not_or] at hsub
  rw [Call.fn, if_neg fun heq => hsub.1 ((modSymbol_inj h (by decide)).mp heq),
    if_neg fun heq => hsub.2 ((modSymbol_inj h (by decide)).mp heq)]

end Fn

theorem newCalls_same {d d' : Daemon} (h : d'.calls = d.calls) : newCalls d d' = [] := by
  rw [newCalls, h, Nat.sub_self, take_zero, reverse_nil]

theorem newCalls_one {d d' : Daemon} {e : Event} (h : d'.calls = e :: d.calls) :
    newCalls d d' = [e] := by
  have hone : (e :: d.calls).length - d.calls.length = 1 := by
    rw [length_cons]
    omega
  rw [newCalls, h, hone]
  rfl

def loadsOf (s : Life) (mods : List Mod) : List Load := mods.map fun m => s.loadAt m.1

/-- The registry holds loads of this run, each under its name, and every load has led a life
that goes with whether it is listed. -/
structure Orderly (w : World) (s : Life) (mods : List Mod) : Prop where
  registry : Registry w s.daemon mods
  names : ∀ m ∈ mods, (s.loadAt m.1).name = m.2.moduleName
  known : ∀ load ∈ loadsOf s mods, load.id < s.serial
  distinct : (loadsOf s mods).Nodup
  made : ∀ c ∈ s.calls, c.load.id < s.serial
  lives : ∀ load, Lifetime (decide (load ∈ loadsOf s mods)) (s.callsOf load)

variable {w : World} {s s' : Life} {mods : List Mod}

theorem Orderly.boot : Orderly w Life.boot [] where
  registry := Registry.boot
  names := by simp
  known := by simp [loadsOf]
  distinct := nodup_nil
  made := by simp [Life.boot]
  lives _ := .unused

theorem Orderly.fits (h : Orderly w s mods) {m : Mod} (hm : m ∈ mods) :
    (s.loadAt m.1).name.length < nameMax := by
  rw [h.names m hm]
  exact h.registry.listed.fits m hm

theorem callsOf_append (calls : List Call) (c : Call) (load : Load) :
    (calls ++ [c]).filter (fun x => x.load = load) =
      calls.filter (fun x => x.load = load) ++ if c.load = load then [c] else [] := by
  rw [filter_append]
  by_cases hload : c.load = load <;> simp [hload]

theorem loadsOf_congr (h : ∀ m ∈ mods, s'.loadAt m.1 = s.loadAt m.1) :
    loadsOf s' mods = loadsOf s mods :=
  map_congr_left h

theorem Orderly.of_no_call (h : Orderly w s mods) (registry : Registry w s'.daemon mods)
    (hloadAt : ∀ m ∈ mods, s'.loadAt m.1 = s.loadAt m.1) (hserial : s.serial ≤ s'.serial)
    (hcalls : s'.calls = s.calls) : Orderly w s' mods where
  registry := registry
  names m hm := (congrArg Load.name (hloadAt m hm)).trans (h.names m hm)
  known load hload :=
    Nat.lt_of_lt_of_le (h.known load (loadsOf_congr hloadAt ▸ hload)) hserial
  distinct := loadsOf_congr hloadAt ▸ h.distinct
  made c hc := Nat.lt_of_lt_of_le (h.made c (hcalls ▸ hc)) hserial
  lives load := by
    rw [loadsOf_congr hloadAt, Life.callsOf, hcalls]
    exact h.lives load

theorem Orderly.of_call (h : Orderly w s mods) {mods' : List Mod} {c : Call}
    (registry : Registry w s'.daemon mods')
    (names : ∀ m ∈ mods', (s'.loadAt m.1).name = m.2.moduleName)
    (hcalls : s'.calls = s.calls ++ [c]) (hserial : s.serial ≤ s'.serial)
    (hc : c.load.id < s'.serial) (distinct : (loadsOf s' mods').Nodup)
    (others : ∀ load, load ≠ c.load → (load ∈ loadsOf s' mods' ↔ load ∈ loadsOf s mods))
    (life : Lifetime (decide (c.load ∈ loadsOf s' mods')) (s.callsOf c.load ++ [c])) :
    Orderly w s' mods' where
  registry := registry
  names := names
  known load hload := by
    by_cases heq : load = c.load
    · exact heq ▸ hc
    · exact Nat.lt_of_lt_of_le (h.known load ((others load heq).mp hload)) hserial
  distinct := distinct
  made x hx := by
    rw [hcalls] at hx
    rcases mem_append.mp hx with hx | hx
    · exact Nat.lt_of_lt_of_le (h.made x hx) hserial
    · exact mem_singleton.mp hx ▸ hc
  lives load := by
    rw [Life.callsOf, hcalls, callsOf_append]
    by_cases heq : c.load = load
    · subst heq
      rw [if_pos rfl]
      exact life
    · rw [if_neg heq, append_nil, decide_eq_decide.mpr (others load (Ne.symm heq))]
      exact h.lives load

theorem Orderly.next (h : Orderly w s mods) (name : Bytes) :
    s.callsOf ⟨s.serial, name⟩ = [] ∧ (⟨s.serial, name⟩ : Load) ∉ loadsOf s mods := by
  constructor
  · rw [Life.callsOf, filter_eq_nil_iff]
    intro c hc heq
    have hlt := h.made c hc
    rw [of_decide_eq_true heq] at hlt
    exact Nat.lt_irrefl _ hlt
  · exact fun hmem => Nat.lt_irrefl _ (h.known _ hmem)

variable {name : Bytes}

theorem step_insmod {o : Insmod} (h : Life.step w s (.insmod name o) = .ok s') :
    ∃ ret, doOneInsmod w o name s.daemon = .ok (ret, s'.daemon) ∧
      s'.loadAt = Function.update s.loadAt (w.allocator.malloc s.daemon.heap.addrs)
        ⟨s.serial, name⟩ ∧
      s'.serial = s.serial + 1 ∧
      s'.calls = s.calls ++ (newCalls s.daemon s'.daemon).filterMap
        (Event.toCall ⟨s.serial, name⟩ .insmod (o.initResult.code = some 0)) := by
  obtain ⟨⟨ret, d⟩, hop, hs'⟩ := bind_eq_ok.mp h
  obtain rfl := Except.ok.inj hs'
  exact ⟨ret, hop, rfl, rfl, rfl⟩

theorem step_rmmod {o : Rmmod} (h : Life.step w s (.rmmod name o) = .ok s') :
    ∃ ret, doOneRmmod o name s.daemon = .ok (ret, s'.daemon) ∧ s'.loadAt = s.loadAt ∧
      s'.serial = s.serial ∧
      s'.calls = s.calls ++ (newCalls s.daemon s'.daemon).filterMap
        (Event.toCall (s.loadFound name) .rmmod true) := by
  obtain ⟨⟨ret, d⟩, hop, hs'⟩ := bind_eq_ok.mp h
  obtain rfl := Except.ok.inj hs'
  exact ⟨ret, hop, rfl, rfl, rfl⟩

/-- A load of insmod begins with `init`, and is listed if that succeeds. -/
theorem Orderly.insmod (h : Orderly w s mods) (hname : name.length < nameMax) {o : Insmod}
    (hstep : Life.step w s (.insmod name o) = .ok s') : ∃ mods', Orderly w s' mods' := by
  obtain ⟨ret, hop, hat, hserial, hcalls⟩ := step_insmod hstep
  rcases doOneInsmod_loaded h.registry o hname with ⟨r, hok, hloaded⟩ | ⟨_, _, _, _, herr⟩
  case inr => rw [herr] at hop; cases hop
  obtain rfl : r = (ret, s'.daemon) := Except.ok.inj (hok.symm.trans hop)
  obtain ⟨hunused, hnew⟩ := h.next name
  have hkeep : ∀ m ∈ mods, s'.loadAt m.1 = s.loadAt m.1 := fun m hm => by
    rw [hat, update_of_ne (h.registry.listed.malloc_ne w.allocator m hm)]
  have hloads := loadsOf_congr hkeep
  have hle : s.serial ≤ s'.serial := by omega
  have hlt : s.serial < s'.serial := by omega
  have hnames : ∀ m ∈ mods, (s'.loadAt m.1).name = m.2.moduleName := fun m hm => by
    rw [hkeep m hm, h.names m hm]
  cases hloaded with
  | refused _ registry calls =>
    rw [newCalls_same calls, filterMap_nil, append_nil] at hcalls
    exact ⟨mods, h.of_no_call registry hkeep hle hcalls⟩
  | failed _ registry code calls =>
    rw [newCalls_one calls, decide_eq_false code] at hcalls
    refine ⟨mods, h.of_call registry hnames hcalls hle hlt (hloads ▸ h.distinct)
      (fun load _ => by rw [hloads]) ?_⟩
    rw [hloads, hunused, decide_eq_false hnew]
    exact .failed _ fn_init rfl rfl
  | listed _ mi moduleName registry code calls =>
    rw [newCalls_one calls, decide_eq_true code] at hcalls
    have hself : s'.loadAt (w.allocator.malloc s.daemon.heap.addrs) = ⟨s.serial, name⟩ := by
      rw [hat, update_self]
    have hcons : loadsOf s' ((w.allocator.malloc s.daemon.heap.addrs, mi) :: mods) =
        ⟨s.serial, name⟩ :: loadsOf s mods := by
      rw [← hloads, ← hself]
      rfl
    refine ⟨_, h.of_call registry ?_ hcalls hle hlt ?_ ?_ ?_⟩
    · intro m hm
      rcases mem_cons.mp hm with rfl | hm
      · rw [hself, moduleName]
      · exact hnames m hm
    · rw [hcons]
      exact nodup_cons.mpr ⟨hnew, h.distinct⟩
    · intro load hne
      rw [hcons, mem_cons]
      exact or_iff_right hne
    · rw [hcons, hunused, decide_eq_true mem_cons_self]
      exact .live _ [] fn_init rfl (by simp)

/-- The rmmod that takes a module off the list ends its load with `exit`. -/
theorem Orderly.rmmod (h : Orderly w s mods) {o : Rmmod}
    (hstep : Life.step w s (.rmmod name o) = .ok s') : ∃ mods', Orderly w s' mods' := by
  obtain ⟨ret, hop, hat, hserial, hcalls⟩ := step_rmmod hstep
  rcases doOneRmmod_spec h.registry o name with ⟨r, hok, hunloaded⟩ | ⟨_, _, herr⟩
  case inr => rw [herr] at hop; cases hop
  obtain rfl : r = (ret, s'.daemon) := Except.ok.inj (hok.symm.trans hop)
  cases hunloaded with
  | refused _ registry calls =>
    rw [newCalls_same calls, filterMap_nil, append_nil] at hcalls
    exact ⟨mods, h.of_no_call registry (fun m _ => by rw [hat]) (Nat.le_of_eq hserial.symm) hcalls⟩
  | removed _ xs m ys hmods moduleName found registry calls =>
    subst hmods
    have hm : m ∈ xs ++ m :: ys := mem_append_right xs mem_cons_self
    have hload : s.loadFound name = s.loadAt m.1 := by
      rw [Life.loadFound, found]
      rfl
    rw [newCalls_one calls, hload] at hcalls
    have hsub : (loadsOf s' (xs ++ ys)).Sublist (loadsOf s (xs ++ m :: ys)) := by
      rw [loadsOf, loadsOf, hat]
      exact ((sublist_cons_self m ys).append_left xs).map _
    have hmem : s.loadAt m.1 ∈ loadsOf s (xs ++ m :: ys) := mem_map.mpr ⟨m, hm, rfl⟩
    have hgone : s.loadAt m.1 ∉ loadsOf s' (xs ++ ys) := by
      have hnd := h.distinct
      rw [loadsOf, map_append, map_cons, nodup_middle, ← map_append] at hnd
      rw [loadsOf, hat]
      exact (nodup_cons.mp hnd).1
    refine ⟨_, h.of_call registry ?_ hcalls (Nat.le_of_eq hserial.symm) ?_
      (h.distinct.sublist hsub) ?_ ?_⟩
    · intro m' hm'
      rw [hat]
      exact h.names m' (((sublist_cons_self m ys).append_left xs).subset hm')
    · rw [hserial]
      exact h.known _ hmem
    · intro load hne
      refine ⟨fun hin => hsub.subset hin, fun hin => ?_⟩
      rw [loadsOf, map_append, map_cons, mem_append, mem_cons] at hin
      rw [loadsOf, hat, map_append, mem_append]
      exact hin.imp_right fun hin => hin.resolve_left hne
    · rw [decide_eq_false hgone]
      have hlife := h.lives (s.loadAt m.1)
      rw [decide_eq_true hmem] at hlife
      exact hlife.rmmod (fn_exit (h.fits hm)) rfl

theorem opsMod_called {o : ModCall} {params : Params} {d : Daemon} {answer : ModAnswer}
    {addr : Nat} {symbol : Bytes} (h : opsMod o params d = .ok (answer, some (addr, symbol))) :
    ∃ msg name words, params = .text msg ∧ (strtok (fun c => c = 32) msg).take 10 = name :: words ∧
      findModule d name = .ok (some (.module addr)) ∧
      symbol = modSymbol name (subcommand words) := by
  cases params with
  | absent | null => cases h
  | text msg =>
    rw [opsMod] at h
    split at h
    · cases h
    · split at h
      · cases h
      · rename_i name words htokens
        obtain ⟨found, hfind, h⟩ := bind_eq_ok.mp h
        cases found with
        | none => cases h
        | some node =>
          cases node with
          | moduleListHead => cases h
          | module a =>
            obtain ⟨mi, -, h⟩ := bind_eq_ok.mp h
            dsimp only at h
            split at h
            · cases h
            · obtain ⟨-, hcall⟩ := Prod.mk.inj (Except.ok.inj h)
              obtain ⟨rfl, rfl⟩ := Prod.mk.inj (some.inj hcall)
              exact ⟨msg, name, words, rfl, htokens, hfind, rfl⟩

/-- A `mod` request that is kept adds a call of another function to a listed load. -/
theorem Orderly.mod (h : Orderly w s mods) {params : Params} {o : ModCall}
    (hkept : (Op.mod params o).Kept) (hstep : Life.step w s (.mod params o) = .ok s') :
    Orderly w s' mods := by
  obtain ⟨⟨answer, called⟩, hop, hs'⟩ := bind_eq_ok.mp hstep
  obtain rfl := Except.ok.inj hs'
  cases called with
  | none => exact h.of_no_call h.registry (fun _ _ => rfl) (Nat.le_refl _) (append_nil _)
  | some call =>
    obtain ⟨addr, symbol⟩ := call
    obtain ⟨msg, name, words, rfl, htokens, hfind, rfl⟩ := opsMod_called hop
    rw [findModule_listed h.registry.listed name] at hfind
    obtain ⟨m, hfound, hnode⟩ := map_eq_some_iff.mp (Except.ok.inj hfind)
    obtain rfl : m.1 = addr := Node.module.inj hnode
    have hm : m ∈ mods := mem_of_find?_eq_some hfound
    have hname : name = (s.loadAt m.1).name := by
      have heq := List.find?_some hfound
      rw [decide_eq_true_eq] at heq
      rw [h.names m hm, heq]
    have hmem : s.loadAt m.1 ∈ loadsOf s mods := mem_map.mpr ⟨m, hm, rfl⟩
    have hsub : subcommand words ∉ [lit "init", lit "exit"] := by
      have hk : subcommand (((strtok (fun c => c = 32) msg).take 10).drop 1) ∉
          [lit "init", lit "exit"] := hkept
      rwa [htokens] at hk
    refine h.of_call h.registry h.names rfl (Nat.le_refl _) (h.known _ hmem) h.distinct
      (fun _ _ => Iff.rfl) ?_
    have hlife := h.lives (s.loadAt m.1)
    rw [decide_eq_true hmem] at hlife
    refine (decide_eq_true hmem).symm ▸ hlife.mod ?_
    rw [hname]
    exact fn_other (h.fits hm) hsub

theorem Orderly.step (h : Orderly w s mods) {op : Op} (hkept : op.Kept)
    (hstep : Life.step w s op = .ok s') : ∃ mods', Orderly w s' mods' := by
  cases op with
  | insmod name o => exact h.insmod hkept hstep
  | rmmod name o => exact h.rmmod hstep
  | mod params o => exact ⟨mods, h.mod hkept hstep⟩

/-- Every run of kept operations keeps the loads in order. -/
theorem Orderly.run (h : Orderly w s mods) {ops : List Op} (hkept : ∀ op ∈ ops, op.Kept)
    (hrun : Life.run w s ops = .ok s') : ∃ mods', Orderly w s' mods' := by
  induction ops generalizing s mods with
  | nil =>
    obtain rfl := Except.ok.inj hrun
    exact ⟨mods, h⟩
  | cons op ops ih =>
    obtain ⟨s₁, hstep, hrest⟩ := bind_eq_ok.mp hrun
    obtain ⟨mods₁, h₁⟩ := h.step (hkept op mem_cons_self) hstep
    exact ih h₁ (fun op' hop => hkept op' (mem_cons_of_mem op hop)) hrest

/-! ## The discipline -/

theorem Orderly.listed_eq (h : Orderly w s mods) : s.listed = loadsOf s mods := by
  rw [Life.listed, listEntries_ring h.registry.listed.ring h.registry.listed.fuel]
  dsimp only
  rw [filterMap_map, loadsOf, ← filterMap_eq_map]
  rfl

/-- Orderly loads are disciplined. -/
theorem Orderly.disciplined (h : Orderly w s mods) : s.Disciplined := by
  have hcallsOf : ∀ {c}, c ∈ s.calls → c ∈ s.callsOf c.load := fun hc =>
    mem_filter.mpr ⟨hc, decide_eq_true rfl⟩
  have hsplit : ∀ {c}, c ∈ s.calls → ∃ before after, s.callsOf c.load = before ++ c :: after :=
    fun hc => append_of_mem (hcallsOf hc)
  have hof : ∀ {load c}, c ∈ s.callsOf load → c ∈ s.calls ∧ c.load = load := fun hc =>
    ⟨(mem_filter.mp hc).1, of_decide_eq_true (mem_filter.mp hc).2⟩
  refine ⟨?_, fun load before c after => (h.lives load).init_iff, ?_, ?_, ?_, ?_⟩
  · intro load hload
    have hlife := h.lives load
    rw [← h.listed_eq, decide_eq_true hload] at hlife
    obtain ⟨c, hc, hinit⟩ := hlife.init_called
    exact ⟨c, (hof hc).1, (hof hc).2, hinit⟩
  · intro c hc hexit
    obtain ⟨before, after, heq⟩ := hsplit hc
    obtain ⟨-, hcaller, hlisted⟩ := (h.lives c.load).exit_last heq hexit
    rw [h.listed_eq]
    exact ⟨hcaller, of_decide_eq_false hlisted⟩
  · intro load before c after heq hexit
    exact ((h.lives load).exit_last heq hexit).1
  · intro c hc hmod
    exact (h.lives c.load).other_of_mod (hcallsOf hc) hmod
  · intro c hc _ hok hlisted
    have hlife := h.lives c.load
    rw [← h.listed_eq, decide_eq_false hlisted] at hlife
    obtain ⟨e, he, hexit⟩ := hlife.exit_due (hcallsOf hc) hok
    exact ⟨e, (hof he).1, (hof he).2, hexit⟩

/-- The first call of a load is the one of `init`, the last may be the one of `exit`, which the
rmmod makes that takes the module off the list, and a load whose `init` succeeded is on the list
until then. This holds along every run in which no `mod` request names `init` or `exit`, and the
names that are loaded fit their buffer. -/
theorem calls_disciplined (w : World) (reqs : List ModRequest) (s : Life)
    (hkept : ∀ op ∈ reqs.flatMap ModRequest.ops, op.Kept)
    (hrun : Life.run w Life.boot (reqs.flatMap ModRequest.ops) = .ok s) : s.Disciplined := by
  obtain ⟨mods, h⟩ := Orderly.boot.run hkept hrun
  exact h.disciplined

def Life.traced (s : Life) : List (Fn × Caller) := s.calls.map fun c => (c.fn, c.caller)

def insmodOne (name : Bytes) (fd : Nat) : ModRequest :=
  .insmod (.text name) fun _ => loads fd fd

def modOne (words : String) : ModRequest := .mod (.text (lit words)) ⟨true, true, some (lit "0")⟩

def rmmodOne (name : Bytes) : ModRequest := .rmmod (.text name) fun _ => ⟨true⟩

/-- A module is loaded, asked twice, unloaded and asked once more. -/
def oneModule : List ModRequest :=
  [insmodOne (lit "m") 3, modOne "m", modOne "m status -v", rmmodOne (lit "m"), modOne "m status"]

theorem calls_disciplined_one_module :
    ∃ s, Life.run trustingWorld Life.boot (oneModule.flatMap ModRequest.ops) = .ok s ∧
      s.traced = [(.init, .insmod), (.other, .mod), (.other, .mod), (.exit, .rmmod)] ∧
      s.Disciplined := by
  have htraced : (Life.run trustingWorld Life.boot
      (oneModule.flatMap ModRequest.ops)).toOption.map Life.traced =
      some [(.init, .insmod), (.other, .mod), (.other, .mod), (.exit, .rmmod)] := by
    decide +kernel
  cases hrun : Life.run trustingWorld Life.boot (oneModule.flatMap ModRequest.ops) with
  | error f =>
    rw [hrun] at htraced
    cases htraced
  | ok s =>
    rw [hrun] at htraced
    exact ⟨s, rfl, some.inj htraced,
      calls_disciplined trustingWorld oneModule s (by decide) hrun⟩

/-- A mod request has called `init` or `exit`, or a load that succeeded is neither listed nor
exited. -/
def Life.strays (s : Life) : Bool :=
  (s.calls.any fun c => c.caller = .mod && c.fn ≠ .other) ||
    s.calls.any fun c => c.fn = .init && c.ok && c.load ∉ s.listed &&
      s.calls.all fun e => e.load ≠ c.load || e.fn ≠ .exit

theorem Life.not_disciplined_of_strays (h : s.strays = true) : ¬ s.Disciplined := by
  intro hs
  rcases Bool.or_eq_true_iff.mp h with h | h
  · obtain ⟨c, hc, hprops⟩ := any_eq_true.mp h
    simp only [Bool.and_eq_true, decide_eq_true_eq] at hprops
    exact hprops.2 (hs.modOther c hc hprops.1)
  · obtain ⟨c, hc, hprops⟩ := any_eq_true.mp h
    simp only [Bool.and_eq_true, decide_eq_true_eq, List.all_eq_true, Bool.or_eq_true] at hprops
    obtain ⟨⟨⟨hinit, hok⟩, hlisted⟩, hexit⟩ := hprops
    obtain ⟨e, he, hload, hfn⟩ := hs.exitDue c hc hinit hok hlisted
    exact (hexit e he).elim (fun hne => hne hload) fun hne => hne hfn

theorem exists_undisciplined {ops : List Op} {trace : List (Fn × Caller)}
    (h : (Life.run w Life.boot ops).toOption.map (fun s => (s.traced, s.strays)) =
      some (trace, true)) :
    ∃ s, Life.run w Life.boot ops = .ok s ∧ s.traced = trace ∧ ¬ s.Disciplined := by
  cases hrun : Life.run w Life.boot ops with
  | error f =>
    rw [hrun] at h
    cases h
  | ok s =>
    rw [hrun] at h
    obtain ⟨htraced, hstrays⟩ := Prod.mk.inj (some.inj h)
    exact ⟨s, rfl, htraced, Life.not_disciplined_of_strays hstrays⟩

/-- A name that fills its buffer, of an archive in directories whose names a file system takes. -/
def nested : Bytes := (List.replicate 127 (lit "m/")).flatten

/-- `mod m init` and `mod m exit` call them, and of two names that agree in what the buffer
holds, the second is initialised and forgotten; their archives can lie below `payload_dir`,
since no part of the path is longer than a file name may be. -/
theorem calls_undisciplined :
    (∃ s, Life.run trustingWorld Life.boot
        ([insmodOne (lit "m") 3, modOne "m init"].flatMap ModRequest.ops) = .ok s ∧
      s.traced = [(.init, .insmod), (.init, .mod)] ∧ ¬ s.Disciplined) ∧
    (∃ s, Life.run trustingWorld Life.boot
        ([insmodOne (lit "m") 3, modOne "m exit", modOne "m", rmmodOne (lit "m")].flatMap
          ModRequest.ops) = .ok s ∧
      s.traced = [(.init, .insmod), (.exit, .mod), (.other, .mod), (.exit, .rmmod)] ∧
      ¬ s.Disciplined) ∧
    (∃ s, Life.run trustingWorld Life.boot
        ([insmodOne nested 3, insmodOne (nested ++ lit "n") 4].flatMap ModRequest.ops) = .ok s ∧
      s.traced = [(.init, .insmod), (.init, .insmod)] ∧ ¬ s.Disciplined) ∧
    ∀ part ∈ (newInfo trustingWorld (nested ++ lit "n")).payloadFullpath.splitOn 47,
      part.length ≤ 255 := by
  refine ⟨exists_undisciplined ?_, exists_undisciplined ?_, exists_undisciplined ?_, ?_⟩ <;>
  decide +kernel

end CtForge.Payload
