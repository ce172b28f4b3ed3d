import CtForge.Lib.StrStr
import CtForge.Agent.Settings
import CtForge.Daemon.Connection

/-!
# Where the daemon listens (`ctforged_init_config`, `start_uv_server`, `ctforge_connect`)

The daemon and `ctforgectl` parse the configuration file as JSON and have a default; the agent
looks through the lines of the file for the word `"listen"`.
-/

namespace CtForge.Agent

open CLang List Option

/-! ## The configuration of the daemon -/

/-- What `fopen` and `fread` give. -/
inductive ConfigText where
  | missing
  | unreadable
  | text (content : Bytes)

structure DaemonConfig where
  listen : Bytes
  payloadDir : Bytes
  logDir : Bytes
  privateKey : Bytes
  publicKey : Bytes

/-- `ctforged_get_config`. -/
def getConfig (root : Option Daemon.Json) (field default : String) : Option Bytes :=
  match root with
  | none => some (lit default)
  | some root =>
    match root.get (lit field) with
    | none => some (lit default)
    | some (.string s) => if (cString s).isEmpty then none else some (cString s)
    | some _ => none

def readConfig (root : Option Daemon.Json) : Option DaemonConfig := do
  return {
    listen := ← getConfig root "listen" "unix:///usr/share/ctforge/ctforge.socket"
    payloadDir := ← getConfig root "payload_dir" "/usr/share/ctforge/payload/"
    logDir := ← getConfig root "log_dir" "/var/log/ctforge/"
    privateKey := ← getConfig root "private_key" "/etc/ctforge/private.pem"
    publicKey := ← getConfig root "public_key" "/etc/ctforge/public.pem" }

/-- `ctforged_init_config`, with `parse` for `json_tokener_parse`; none where it fails. -/
def initConfig (parse : Bytes → Option Daemon.Json) : ConfigText → Option DaemonConfig
  | .missing => readConfig none
  | .unreadable => none
  | .text content =>
    if content.isEmpty then readConfig none
    else
      match parse (cString content) with
      | some (.object fields) => readConfig (some (.object fields))
      | _ => none

/-! ## The three programs -/

inductive Target where
  | unix (path : Bytes)
  | tcp (host : Bytes) (port : Int32)
  deriving DecidableEq, Repr

/-- The text before and behind the last colon, as `strrchr` splits it. -/
def lastColon (s : Bytes) : Option (Bytes × Bytes) :=
  match s.reverse.dropWhile (· != 58) with
  | [] => none
  | _ :: front => some (front.reverse, (s.reverse.takeWhile (· != 58)).reverse)

/-- A number that `uv_inet_pton` takes. -/
def isIp4Part (p : Bytes) : Bool :=
  !p.isEmpty && p.all isDigit && (p.length == 1 || p.head? != some 48) && decide (p.length ≤ 3) &&
    strtol p ≤ 255

def isIp4 (host : Bytes) : Bool :=
  (host.splitOn 46).length == 4 && (host.splitOn 46).all isIp4Part

def isUnix (listen : Bytes) : Bool := startsWith listen (lit "unix://")

/-- Where `start_uv_server` tries to listen; none where it gives up before. -/
def daemonTarget (listen : Bytes) : Option Target :=
  if isUnix listen then some (.unix (listen.drop 7))
  else
    match lastColon listen with
    | none => none
    | some (host, rest) =>
      if atoi rest ≤ 0 ∨ atoi rest > 65535 then none
      else if isIp4 host then some (.tcp host (atoi rest)) else none

def afterSign (s : Bytes) : Bytes :=
  let s := s.dropWhile isSpace
  if s.head? == some 45 || s.head? == some 43 then s.drop 1 else s

/-- The conversion `%d` of `sscanf`. -/
def scanInt (s : Bytes) : Option Int32 :=
  if (afterSign s).head?.any isDigit then some (atoi s) else none

/-- `sscanf(listen, "%255[^:]:%d", host, &port)`. -/
def scanAddress (listen : Bytes) : Option (Bytes × Int32) :=
  let host := (listen.takeWhile (· != 58)).take 255
  if host.isEmpty then none
  else
    match listen.drop host.length with
    | 58 :: rest => (scanInt rest).map (host, ·)
    | _ => none

/-- Where `ctforgectl` connects. -/
def ctlTarget (listen : Bytes) : Option Target :=
  if isUnix listen then some (.unix (listen.drop 7))
  else (scanAddress listen).map fun r => .tcp r.1 r.2

/-- What the agent takes from a line: behind `"listen"` and a colon, the next text between
quotes. -/
def listenOf (line : Bytes) : Option Bytes :=
  match strstr (quoted (lit "listen")) (cString line) with
  | none => none
  | some behind =>
    match (behind.dropWhile (· != 58)).dropWhile (· != 34) with
    | [] => none
    | _ :: value => if value.contains 34 then some (value.takeWhile (· != 34)) else none

/-- `ctforge_read_listen`. -/
def readListen : ConfigText → Option Bytes
  | .text content => ((ConfigFile.fgetsFrom [] content).findSome? listenOf).map (List.take 255)
  | _ => none

/-- Where `ctforge_connect` tries to connect. -/
def agentTarget (listen : Bytes) : Option Target :=
  if isUnix listen then
    if 108 ≤ (listen.drop 7).length then none else some (.unix (listen.drop 7))
  else
    match lastColon listen with
    | none => none
    | some (host, rest) =>
      if 200 ≤ host.length ∨ atoi rest ≤ 0 then none else some (.tcp host (atoi rest))

def daemonListens (parse : Bytes → Option Daemon.Json) (file : ConfigText) : Option Target :=
  (initConfig parse file).bind fun cfg => daemonTarget cfg.listen

def ctlConnects (parse : Bytes → Option Daemon.Json) (file : ConfigText) : Option Target :=
  (initConfig parse file).bind fun cfg => ctlTarget cfg.listen

def agentConnects (file : ConfigText) : Option Target := (readListen file).bind agentTarget

/-! ## The daemon and `ctforgectl` -/

theorem span_until {s : Bytes} {q : UInt8} (t : Bytes) (hq : q ∉ s) :
    (s ++ q :: t).dropWhile (· != q) = q :: t ∧ (s ++ q :: t).takeWhile (· != q) = s := by
  have hall : ∀ c ∈ s, (c != q) = true := fun c hc => by
    simpa using fun heq : c = q => hq (heq ▸ hc)
  rw [dropWhile_append_of_pos hall, takeWhile_append_of_pos hall]
  simp

theorem dropWhile_until {s t : Bytes} {q c : UInt8} (h : s.dropWhile (· != q) = c :: t) :
    c = q ∧ s = s.takeWhile (· != q) ++ q :: t ∧ q ∉ s.takeWhile (· != q) := by
  have hsplit := takeWhile_append_dropWhile (p := fun c : UInt8 => c != q) (l := s)
  have hhead := List.head?_dropWhile_not (fun c : UInt8 => c != q) s
  rw [h] at hsplit hhead
  obtain rfl : c = q := by simpa using hhead
  exact ⟨rfl, hsplit.symm, fun hmem => by simpa using mem_takeWhile_imp hmem⟩

theorem lastColon_iff {s host rest : Bytes} :
    lastColon s = some (host, rest) ↔ s = host ++ 58 :: rest ∧ 58 ∉ rest := by
  refine ⟨fun h => ?_, fun ⟨hs, hrest⟩ => ?_⟩
  · unfold lastColon at h
    split at h
    · cases h
    · rename_i c front hdrop
      cases h
      obtain ⟨-, hsplit, hnot⟩ := dropWhile_until hdrop
      have hs := congrArg List.reverse hsplit
      rw [reverse_reverse, reverse_append, reverse_cons, append_assoc] at hs
      exact ⟨hs, fun hmem => hnot (mem_reverse.mp hmem)⟩
  · have hrev : s.reverse = rest.reverse ++ 58 :: host.reverse := by simp [hs]
    have hspan := span_until (s := rest.reverse) (q := 58) host.reverse (by simpa using hrest)
    simp only [lastColon, hrev, hspan.1, hspan.2, reverse_reverse]

example : lastColon (lit "::1:7000") = some (lit "::1", lit "7000") := by decide +kernel

/-- A dotted address is short, and has neither a colon nor a `u`. -/
theorem isIp4_facts {host : Bytes} (h : isIp4 host = true) :
    (∀ c ∈ [58, 117], c ∉ host) ∧ host.length ≤ 15 ∧ host ≠ [] := by
  rw [isIp4, Bool.and_eq_true, beq_iff_eq] at h
  obtain ⟨hlen, hparts⟩ := h
  have hhost : [46].intercalate (host.splitOn 46) = host := intercalate_splitOn _
  match hsplit : host.splitOn 46, hlen with
  | [p, q, r, t], _ =>
    rw [hsplit] at hhost hparts
    have hpart : ∀ {p : Bytes}, isIp4Part p = true →
        (∀ c ∈ [58, 117], c ∉ p) ∧ p.length ≤ 3 ∧ p ≠ [] := by
      intro p hp
      simp only [isIp4Part, Bool.and_eq_true, decide_eq_true_eq] at hp
      obtain ⟨⟨⟨⟨hne, hdigits⟩, -⟩, hthree⟩, -⟩ := hp
      refine ⟨fun c hc hmem => ?_, hthree, by simpa using hne⟩
      have hdigit := all_eq_true.mp hdigits c hmem
      rcases mem_pair.mp hc with rfl | rfl <;> exact absurd hdigit (by decide)
    simp only [all_cons, all_nil, Bool.and_true, Bool.and_eq_true] at hparts
    obtain ⟨hp, hq, hr, ht⟩ := hparts
    obtain ⟨hp58, hp3, hpne⟩ := hpart hp
    obtain ⟨hq58, hq3, -⟩ := hpart hq
    obtain ⟨hr58, hr3, -⟩ := hpart hr
    obtain ⟨ht58, ht3, -⟩ := hpart ht
    rw [← hhost]
    refine ⟨?_, ?_, ?_⟩
    · intro c hc
      have hdot : c ≠ 46 := by rcases mem_pair.mp hc with rfl | rfl <;> decide
      simp [List.intercalate, hp58 c hc, hq58 c hc, hr58 c hc, ht58 c hc, hdot]
    · simp only [List.intercalate, List.intersperse, flatten_cons, flatten_nil,
        length_append, length_singleton, length_nil]
      omega
    · simp [List.intercalate, hpne]

theorem scanInt_of_pos {s : Bytes} (h : ¬ atoi s ≤ 0) : scanInt s = some (atoi s) := by
  refine if_pos ?_
  by_contra hdigit
  have hnone : (afterSign s).takeWhile isDigit = [] := by
    cases hs : afterSign s with
    | nil => rfl
    | cons c t =>
      rw [hs] at hdigit
      exact takeWhile_cons_of_neg (by simpa using hdigit)
  have hzero : strtol s = max (-9223372036854775808) (min 9223372036854775807
      (if (s.dropWhile isSpace).head? == some 45 then -0 else 0)) := by
    change max _ (min _ (if _ then -(((afterSign s).takeWhile isDigit).foldl _ 0) else
      ((afterSign s).takeWhile isDigit).foldl _ 0)) = _
    rw [hnone]
    rfl
  have hatoi : atoi s = 0 := by
    rw [atoi, hzero]
    split <;> rfl
  rw [hatoi] at h
  exact h (by decide)

/-- `ctforgectl` connects to where the daemon listens. -/
theorem ctl_agrees {listen : Bytes} {target : Target} (h : daemonTarget listen = some target) :
    ctlTarget listen = some target := by
  unfold daemonTarget at h
  unfold ctlTarget
  split_ifs at h ⊢ with hunix
  · exact h
  · split at h
    · cases h
    · rename_i host rest hcolon
      split_ifs at h with hport hip
      obtain ⟨hlisten, -⟩ := lastColon_iff.mp hcolon
      obtain ⟨hnot, hlen, hne⟩ := isIp4_facts hip
      have hhost := hnot 58 (by decide)
      have htake : listen.takeWhile (· != 58) = host := by
        rw [hlisten, takeWhile_append_of_pos fun c hc => by
          simpa using fun heq : c = 58 => hhost (heq ▸ hc)]
        simp
      have hrest : listen.drop host.length = 58 :: rest := by rw [hlisten, drop_left]
      rw [scanAddress, htake, take_of_length_le (by omega)]
      simp only [List.isEmpty_iff, hne, if_false, hrest]
      rw [scanInt_of_pos fun hle => hport (.inl hle)]
      exact h

/-! ## The agent -/

/-- The path of a socket has to fit `sun_path`. -/
def Target.Fits : Target → Prop
  | .unix path => path.length < 108
  | .tcp _ _ => True

/-- Behind `"listen"` and a colon the line has the value between quotes. -/
def Spells (line value : Bytes) : Prop :=
  ∃ a b c, strstr (quoted (lit "listen")) (cString line) =
    some (a ++ 58 :: (b ++ 34 :: (value ++ 34 :: c))) ∧ 58 ∉ a ∧ 34 ∉ b ∧ 34 ∉ value

/-- The value is the one on the first line of the file that has any. -/
def Legible (content value : Bytes) : Prop :=
  ∃ earlier line later, ConfigFile.fgetsFrom [] content = earlier ++ line :: later ∧
    Spells line value ∧ ∀ l ∈ earlier, ∀ v, ¬ Spells l v

/-- The text is an address of the target; a port may be written in several ways. -/
def Names (value : Bytes) : Target → Prop
  | .unix path => value = lit "unix://" ++ path
  | .tcp host port => ∃ rest, value = host ++ 58 :: rest ∧ 58 ∉ rest ∧ atoi rest = port

/-- What a line gives for `listen` is what it spells. -/
theorem listenOf_iff {line value : Bytes} : listenOf line = some value ↔ Spells line value := by
  refine ⟨fun h => ?_, fun ⟨a, b, c, hbehind, ha, hb, hvalue⟩ => ?_⟩
  · unfold listenOf at h
    split at h
    · cases h
    · rename_i behind hbehind
      split at h
      · cases h
      · rename_i q text htext
        split_ifs at h with hend
        cases h
        cases hcolon : behind.dropWhile (· != 58) with
        | nil => rw [hcolon] at htext; cases htext
        | cons k t =>
          obtain ⟨rfl, hsplit, ha⟩ := dropWhile_until hcolon
          rw [hcolon, dropWhile_cons_of_pos (by decide)] at htext
          obtain ⟨-, hquote, hb⟩ := dropWhile_until htext
          obtain ⟨e, c, hclose⟩ : ∃ e c, text.dropWhile (· != 34) = e :: c := by
            refine exists_cons_of_ne_nil fun hnil => ?_
            simpa using dropWhile_eq_nil_iff.mp hnil 34 (by simpa using hend)
          obtain ⟨-, hvalue, hv⟩ := dropWhile_until hclose
          refine ⟨_, _, c, ?_, ha, hb, hv⟩
          rw [← hvalue, ← hquote, ← hsplit, hbehind]
  · have hquote := (span_until (q := 34) (value ++ 34 :: c) (s := 58 :: b) (by simpa using hb)).1
    simp only [listenOf, hbehind, (span_until _ ha).1]
    rw [← cons_append, hquote]
    simp [(span_until c hvalue).2]

theorem readListen_iff {content text : Bytes} : readListen (.text content) = some text ↔
    ∃ value, Legible content value ∧ value.take 255 = text := by
  have hnone : ∀ l, listenOf l = none ↔ ∀ v, ¬ Spells l v := fun l => by
    simp only [← listenOf_iff, eq_none_iff_forall_ne_some, ne_eq]
  simp only [readListen, map_eq_some_iff, List.findSome?_eq_some_iff, Legible, listenOf_iff, hnone]

/-- The agent finds the daemon exactly if its buffer holds the address and the file names it. -/
theorem agentTarget_iff {listen text : Bytes} {target : Target}
    (h : daemonTarget listen = some target) :
    agentTarget text = some target ↔ target.Fits ∧ Names text target := by
  have hstarts : isUnix text = true ↔ text = lit "unix://" ++ text.drop 7 := by
    rw [isUnix, startsWith_iff, prefix_iff_eq_append]
    exact eq_comm
  cases target with
  | unix path =>
    refine ⟨fun hagent => ?_, fun ⟨hfits, hnames⟩ => ?_⟩
    · unfold agentTarget at hagent
      split_ifs at hagent with hunix hlong
      · cases hagent
        exact ⟨Nat.not_le.mp hlong, hstarts.mp hunix⟩
      · split at hagent
        · cases hagent
        · split_ifs at hagent
          cases hagent
    · have hpath : text.drop 7 = path := by rw [hnames]; rfl
      rw [agentTarget, if_pos (hstarts.mpr (by rw [hpath]; exact hnames)), hpath,
        if_neg (Nat.not_le.mpr hfits)]
  | tcp host port =>
    have hfacts : isIp4 host = true ∧ ¬ port ≤ 0 := by
      unfold daemonTarget at h
      split_ifs at h
      · cases h
      · split at h
        · cases h
        · split_ifs at h with hport hip
          cases h
          exact ⟨hip, fun hle => hport (.inl hle)⟩
    obtain ⟨hnot, hlen, hne⟩ := isIp4_facts hfacts.1
    refine ⟨fun hagent => ?_, fun ⟨hfits, rest, hnames, hrest, hport⟩ => ?_⟩
    · unfold agentTarget at hagent
      split_ifs at hagent with hunix
      · cases hagent
      · split at hagent
        · cases hagent
        · rename_i host' rest hcolon
          split_ifs at hagent
          cases hagent
          exact ⟨trivial, rest, (lastColon_iff.mp hcolon).1, (lastColon_iff.mp hcolon).2, rfl⟩
    · have hunix : isUnix text = false := by
        refine Bool.eq_false_iff.mpr fun hunix => hnot 117 (by decide) ?_
        have htext := (hstarts.mp hunix).symm.trans hnames
        cases host with
        | nil => exact absurd rfl hne
        | cons c host =>
          obtain rfl : 117 = c := (cons.inj htext).1
          exact mem_cons_self
      rw [agentTarget, if_neg (by simp [hunix]), lastColon_iff.mpr ⟨hnames, hrest⟩]
      simp only
      rw [if_neg (by rw [hport]; rintro (hlong | hle); exacts [by omega, hfacts.2 hle]), hport]

/-- `ctforgectl` connects to where the daemon listens, and the agent does exactly if the file has
the address on the first line from which it takes a value. -/
theorem listen_agreement (parse : Bytes → Option Daemon.Json) (file : ConfigText)
    (target : Target) (hlistens : daemonListens parse file = some target) :
    ctlConnects parse file = some target ∧
      (agentConnects file = some target ↔ target.Fits ∧ ∃ content value,
        file = .text content ∧ Legible content value ∧ Names (value.take 255) target) := by
  obtain ⟨cfg, hconfig, htarget⟩ := bind_eq_some_iff.mp hlistens
  refine ⟨?_, ?_⟩
  · rw [ctlConnects, hconfig, bind_some, ctl_agrees htarget]
  · rw [agentConnects, bind_eq_some_iff]
    cases file with
    | missing | unreadable => simp [readListen]
    | text content =>
      simp only [readListen_iff, agentTarget_iff htarget]
      constructor
      · rintro ⟨_, ⟨value, hlegible, rfl⟩, hfits, hnames⟩
        exact ⟨hfits, content, value, rfl, hlegible, hnames⟩
      · rintro ⟨hfits, _, value, hfile, hlegible, hnames⟩
        cases hfile
        exact ⟨_, ⟨value, hlegible, rfl⟩, hfits, hnames⟩

theorem daemonListens_text {parse : Bytes → Option Daemon.Json} {content : Bytes}
    {fields : List (Bytes × Daemon.Json)} (hcontent : content.isEmpty = false)
    (hparse : parse (cString content) = some (.object fields)) :
    daemonListens parse (.text content) =
      (readConfig (some (.object fields))).bind fun cfg => daemonTarget cfg.listen := by
  simp only [daemonListens, initConfig, hcontent, hparse, Bool.false_eq_true, if_false]

def shippedConfig : Bytes := lit "\x7b\n\t\"listen\": \"127.0.0.1:7000\"\n\x7d\n"

def shippedFields : List (Bytes × Daemon.Json) :=
  [(lit "listen", .string (lit "127.0.0.1:7000"))]

theorem shippedConfig_agrees :
    ctlConnects (fun _ => some (.object shippedFields)) (.text shippedConfig) =
        some (.tcp (lit "127.0.0.1") 7000) ∧
      agentConnects (.text shippedConfig) = some (.tcp (lit "127.0.0.1") 7000) := by
  have hlegible : Legible shippedConfig (lit "127.0.0.1:7000") := by
    refine ⟨[lit "\x7b\n"], lit "\t\"listen\": \"127.0.0.1:7000\"\n", [lit "\x7d\n"], by decide,
      ⟨[], [32], [10], by decide⟩, ?_⟩
    simp only [mem_singleton, ← listenOf_iff, forall_eq]
    intro v hv
    exact absurd (hv.symm.trans (by decide : _ = none)) (by simp)
  have hagree := listen_agreement (fun _ => some (.object shippedFields)) (.text shippedConfig)
    (.tcp (lit "127.0.0.1") 7000) (by decide)
  exact ⟨hagree.1, hagree.2.mpr ⟨trivial, _, _, rfl, hlegible, lit "7000", by decide⟩⟩

def brokenLine : Bytes := lit "\x7b\"listen\":\n\"127.0.0.1:7000\"\x7d\n"

def nestedListen : Bytes :=
  lit "\x7b\"log\":\x7b\"listen\":\"127.0.0.1:9\"\x7d,\"listen\":\"127.0.0.1:7000\"\x7d\n"

def nestedFields : List (Bytes × Daemon.Json) :=
  (lit "log", .object [(lit "listen", .string (lit "127.0.0.1:9"))]) :: shippedFields

/-- A missing file, a value on the next line, and another object's `listen`. -/
theorem agent_misses_daemon :
    ((∀ parse, daemonListens parse .missing =
        some (.unix (lit "/usr/share/ctforge/ctforge.socket"))) ∧
      agentConnects .missing = none) ∧
    ((∀ parse, parse brokenLine = some (.object shippedFields) →
        daemonListens parse (.text brokenLine) = some (.tcp (lit "127.0.0.1") 7000)) ∧
      agentConnects (.text brokenLine) = none) ∧
    ((∀ parse, parse nestedListen = some (.object nestedFields) →
        daemonListens parse (.text nestedListen) = some (.tcp (lit "127.0.0.1") 7000)) ∧
      agentConnects (.text nestedListen) = some (.tcp (lit "127.0.0.1") 9)) := by
  refine ⟨⟨fun _ => rfl, rfl⟩, ⟨fun parse hparse => ?_, by decide⟩,
    fun parse hparse => ?_, by decide⟩
  · rw [daemonListens_text (by decide) hparse]
    decide
  · rw [daemonListens_text (by decide) hparse]
    decide

end CtForge.Agent
