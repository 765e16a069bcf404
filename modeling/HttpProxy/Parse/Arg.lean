/-
  HttpProxy.Parse.Arg

  The command line: proxy_parse_arg, and proxy_main up to its return.  `opens` says which
  files fopen can open for writing; where it fails, the stream is NULL, and the next
  message that is not below the level of `-v` is written to it.

  `ArgOpt` is the grammar.  The options are read as far as they go (`options_split`), each
  does to the settings what it says (`parseLoop_options`), and what is behind them decides
  (`parseLoop_tail`).
-/

import HttpProxy.Core.Basic
import Mathlib.Data.List.Induction

namespace HttpProxy

-- ============================================================================
-- core/arg.c
-- ============================================================================

def PROXY_LOG_LEVEL_DEBUG : Nat := 2
def PROXY_LOG_LEVEL_INFO : Nat := 3

/-- `struct proxy_arg_t`; `logFile` is the file of the stream, or NULL. -/
structure ProxyArg where
  port : Int
  addr : Bytes
  verbose : Nat
  logFile : Option Bytes
deriving DecidableEq

/-- `arg` as it is initialised. -/
def argInit : ProxyArg :=
  { port := -1, addr := bytesOf "127.0.0.1", verbose := PROXY_LOG_LEVEL_INFO, logFile := none }

/-- What proxy_parse_arg comes to: 0, -1 behind a reason of `usage`, or a write to NULL. -/
inductive ArgRes where
  | ok (arg : ProxyArg)
  | usage (reason : Option String) (arg : ProxyArg)
  | fault
deriving DecidableEq

/-- `PLOGD`, and what comes behind it. -/
def ProxyArg.plogd (arg : ProxyArg) (res : ArgRes) : ArgRes :=
  if PROXY_LOG_LEVEL_DEBUG < arg.verbose then res
  else if arg.logFile.isSome then res
  else .fault

def portReason : String := "Please specific port number between 1 and 65535"

/-- The loop of `proxy_parse_arg` at `argv[x]` and what comes behind it; behind the last
    argument is NULL. -/
def parseLoop (opens : Bytes → Bool) (arg : ProxyArg) : List Bytes → ArgRes
  | [] =>
      if arg.port = -1 then .usage (some portReason) arg
      else arg.plogd (.ok arg)
  | s :: rest =>
      if s = bytesOf "-v" then parseLoop opens { arg with verbose := PROXY_LOG_LEVEL_DEBUG } rest
      else if s = bytesOf "-a" then
        match rest with
        | [] => .usage (some "Cannot parse address") arg
        | addr :: rest => { arg with addr }.plogd (parseLoop opens { arg with addr } rest)
      else if s = bytesOf "-l" then
        match rest with
        | [] => .usage (some "Cannot open log file") arg
        | file :: rest =>
            if opens file then
              { arg with logFile := some file }.plogd
                (parseLoop opens { arg with logFile := some file } rest)
            else .usage (some "Cannot open log file") { arg with logFile := none }
      else if s = bytesOf "-h" then .usage none arg
      else
        -- parse_port; the arguments behind the port are not looked at
        let arg := { arg with port := atoi s }
        arg.plogd
          (if arg.port < 1 ∨ 65535 < arg.port then .usage (some portReason) arg
          else if arg.port = -1 then .usage (some portReason) arg
          else arg.plogd (.ok arg))

/-- `proxy_parse_arg` -/
def proxyParseArg (opens : Bytes → Bool) (arg : ProxyArg) (args : List Bytes) : ArgRes :=
  arg.plogd (parseLoop opens arg args)

/-- `proxy_log_init` -/
def proxyLogInit (opens : Bytes → Bool) (arg : ProxyArg) : ProxyArg :=
  if arg.logFile.isSome then arg
  else if opens (bytesOf "proxy.log") then { arg with logFile := some (bytesOf "proxy.log") }
  else arg

/-- `proxy_main` behind `proxy_parse_arg`: it says so when it returns. -/
def argRet : ArgRes → ArgRes
  | .ok arg => .ok arg
  | .usage reason arg => arg.plogd (.usage reason arg)
  | .fault => .fault

/-- `proxy_main` until the arguments are parsed, or it returns. -/
def proxyMainArg (opens : Bytes → Bool) (args : List Bytes) : ArgRes :=
  let arg := proxyLogInit opens argInit
  arg.plogd (arg.plogd (argRet (proxyParseArg opens arg args)))

-- ============================================================================
-- The grammar
-- ============================================================================

/-- An option with its argument. -/
inductive ArgOpt where
  | verbose
  | addr (a : Bytes)
  | log (f : Bytes)
deriving DecidableEq

namespace ArgOpt

def render : ArgOpt → List Bytes
  | verbose => [bytesOf "-v"]
  | addr a => [bytesOf "-a", a]
  | log f => [bytesOf "-l", f]

def addr? : ArgOpt → Option Bytes
  | addr a => some a
  | _ => none

def log? : ArgOpt → Option Bytes
  | log f => some f
  | _ => none

/-- The options as they stand on the command line. -/
def renderAll (opts : List ArgOpt) : List Bytes := opts.flatMap render

/-- fopen can open the file of the option. -/
def Opens (opens : Bytes → Bool) (o : ArgOpt) : Prop := ∀ f, o = log f → opens f = true

/-- What an option does to the settings. -/
def apply (arg : ProxyArg) : ArgOpt → ProxyArg
  | verbose => { arg with verbose := PROXY_LOG_LEVEL_DEBUG }
  | addr a => { arg with addr := a }
  | log f => { arg with logFile := some f }

end ArgOpt

/-- Four words that are not read as a port. -/
def IsOption (s : Bytes) : Prop :=
  s = bytesOf "-v" ∨ s = bytesOf "-a" ∨ s = bytesOf "-l" ∨ s = bytesOf "-h"

/-- The settings of a command line: of each kind of option the last one counts. -/
def argSettings (opts : List ArgOpt) (port : Bytes) : ProxyArg where
  port := atoi port
  addr := ((opts.filterMap ArgOpt.addr?).getLast?).getD (bytesOf "127.0.0.1")
  verbose := if ArgOpt.verbose ∈ opts then PROXY_LOG_LEVEL_DEBUG else PROXY_LOG_LEVEL_INFO
  logFile := some (((opts.filterMap ArgOpt.log?).getLast?).getD (bytesOf "proxy.log"))

-- ============================================================================
-- The options
-- ============================================================================

section

variable {opens : Bytes → Bool} {arg : ProxyArg} {opts : List ArgOpt} {args rest : List Bytes}
  {s : Bytes} {res : ArgRes}

theorem plogd_of_log (h : arg.logFile.isSome = true) : arg.plogd res = res := by
  rw [ProxyArg.plogd, if_pos h, ite_self]

/-- One option is read, and its file is opened. -/
theorem parseLoop_option (o : ArgOpt) (ho : o.Opens opens) (hlog : arg.logFile.isSome = true) :
    parseLoop opens arg (o.render ++ rest) = parseLoop opens (o.apply arg) rest := by
  cases o with
  | verbose =>
      show parseLoop opens arg (bytesOf "-v" :: rest) = _
      rw [parseLoop.eq_def]
      exact if_pos rfl
  | addr a =>
      show parseLoop opens arg (bytesOf "-a" :: a :: rest) = _
      rw [parseLoop.eq_def]
      show (if _ then _ else if _ then _ else _) = _
      rw [if_neg (by decide), if_pos rfl]
      exact plogd_of_log hlog
  | log f =>
      show parseLoop opens arg (bytesOf "-l" :: f :: rest) = _
      rw [parseLoop.eq_def]
      show (if _ then _ else if _ then _ else if _ then (if _ then _ else _) else _) = _
      rw [if_neg (by decide), if_neg (by decide), if_pos rfl, if_pos (ho f rfl)]
      exact plogd_of_log rfl

theorem apply_logFile (o : ArgOpt) (hlog : arg.logFile.isSome = true) :
    (o.apply arg).logFile.isSome = true := by
  cases o with
  | verbose => exact hlog
  | addr a => exact hlog
  | log f => rfl

theorem foldl_apply_logFile (opts : List ArgOpt) (hlog : arg.logFile.isSome = true) :
    (opts.foldl ArgOpt.apply arg).logFile.isSome = true := by
  induction opts generalizing arg with
  | nil => exact hlog
  | cons o opts ih => exact ih (apply_logFile o hlog)

/-- All the options are read. -/
theorem parseLoop_options (hopens : ∀ o ∈ opts, o.Opens opens) (hlog : arg.logFile.isSome = true) :
    parseLoop opens arg (ArgOpt.renderAll opts ++ rest) =
      parseLoop opens (opts.foldl ArgOpt.apply arg) rest := by
  induction opts generalizing arg with
  | nil => rfl
  | cons o opts ih =>
      have hfirst := hopens o List.mem_cons_self
      have hothers := fun x hx => hopens x (List.mem_cons_of_mem o hx)
      rw [ArgOpt.renderAll, List.flatMap_cons, List.append_assoc, parseLoop_option o hfirst hlog]
      exact ih hothers (apply_logFile o hlog)

/-- What the options leave. -/
theorem foldl_apply (opts : List ArgOpt) (port : Bytes) :
    { (opts.foldl ArgOpt.apply { argInit with logFile := some (bytesOf "proxy.log") }) with
      port := atoi port } = argSettings opts port := by
  induction opts using List.reverseRecOn with
  | nil => rfl
  | append_singleton opts o ih =>
      have haddr := congrArg ProxyArg.addr ih
      have hverbose := congrArg ProxyArg.verbose ih
      have hlogFile := congrArg ProxyArg.logFile ih
      simp only [argSettings] at haddr hverbose hlogFile
      rw [List.foldl_append, List.foldl_cons, List.foldl_nil, argSettings, List.filterMap_append,
        List.filterMap_append]
      cases o with
      | verbose => simp [ArgOpt.apply, ArgOpt.addr?, ArgOpt.log?, haddr, hlogFile]
      | addr a => simp [ArgOpt.apply, ArgOpt.addr?, ArgOpt.log?, hverbose, hlogFile]
      | log f => simp [ArgOpt.apply, ArgOpt.addr?, ArgOpt.log?, haddr, hverbose]

-- ============================================================================
-- What is behind the options
-- ============================================================================

/-- No option can be read any more. -/
inductive ArgTail (opens : Bytes → Bool) : List Bytes → Prop where
  | missing : ArgTail opens []
  | noAddr : ArgTail opens [bytesOf "-a"]
  | noFile : ArgTail opens [bytesOf "-l"]
  | badFile {f : Bytes} {rest : List Bytes} : opens f = false →
      ArgTail opens (bytesOf "-l" :: f :: rest)
  | help {rest : List Bytes} : ArgTail opens (bytesOf "-h" :: rest)
  | port {s : Bytes} {rest : List Bytes} : ¬ IsOption s → ArgTail opens (s :: rest)

/-- Every command line is options and what stops them. -/
theorem options_split (opens : Bytes → Bool) (args : List Bytes) :
    ∃ opts tail, args = ArgOpt.renderAll opts ++ tail ∧ (∀ o ∈ opts, o.Opens opens) ∧
      ArgTail opens tail := by
  have hnone : ∀ o ∈ ([] : List ArgOpt), o.Opens opens := by simp
  have hcons (o : ArgOpt) (ho : o.Opens opens) (rest : List Bytes)
      (hrest : ∃ opts tail, rest = ArgOpt.renderAll opts ++ tail ∧ (∀ o ∈ opts, o.Opens opens) ∧
        ArgTail opens tail) :
      ∃ opts tail, o.render ++ rest = ArgOpt.renderAll opts ++ tail ∧
        (∀ o ∈ opts, o.Opens opens) ∧ ArgTail opens tail := by
    obtain ⟨opts, tail, rfl, hopens, htail⟩ := hrest
    refine ⟨o :: opts, tail, ?_, List.forall_mem_cons.mpr ⟨ho, hopens⟩, htail⟩
    rw [ArgOpt.renderAll, ArgOpt.renderAll, List.flatMap_cons, List.append_assoc]
  -- an option may take two words
  induction hn : args.length using Nat.strongRecOn generalizing args with
  | ind n ih =>
  cases args with
  | nil => exact ⟨[], [], rfl, hnone, .missing⟩
  | cons s rest =>
      by_cases hv : s = bytesOf "-v"
      · subst hv
        have hopens : ArgOpt.verbose.Opens opens := fun f hf => ArgOpt.noConfusion hf
        exact hcons .verbose hopens rest (ih rest.length (by simp [← hn]) rest rfl)
      by_cases ha : s = bytesOf "-a"
      · subst ha
        cases rest with
        | nil => exact ⟨[], _, rfl, hnone, .noAddr⟩
        | cons a rest =>
            have hopens : (ArgOpt.addr a).Opens opens := fun f hf => ArgOpt.noConfusion hf
            have hlen : rest.length < n := by
              rw [← hn, List.length_cons, List.length_cons]
              omega
            exact hcons (.addr a) hopens rest (ih rest.length hlen rest rfl)
      by_cases hl : s = bytesOf "-l"
      · subst hl
        cases rest with
        | nil => exact ⟨[], _, rfl, hnone, .noFile⟩
        | cons f rest =>
            cases hf : opens f with
            | false => exact ⟨[], _, rfl, hnone, .badFile hf⟩
            | true =>
                have hopens : (ArgOpt.log f).Opens opens := by
                  intro g hg
                  obtain rfl := ArgOpt.log.inj hg
                  exact hf
                have hlen : rest.length < n := by
                  rw [← hn, List.length_cons, List.length_cons]
                  omega
                exact hcons (.log f) hopens rest (ih rest.length hlen rest rfl)
      by_cases hh : s = bytesOf "-h"
      · subst hh
        exact ⟨[], _, rfl, hnone, .help⟩
      · refine ⟨[], _, rfl, hnone, .port ?_⟩
        rintro (h | h | h | h)
        · exact hv h
        · exact ha h
        · exact hl h
        · exact hh h

/-- Behind the options, with the log open: only a port that is one is accepted. -/
theorem parseLoop_port (hport : ¬ IsOption s) (hlog : arg.logFile.isSome = true) :
    parseLoop opens arg (s :: rest) =
      if 1 ≤ atoi s ∧ atoi s ≤ 65535 then .ok { arg with port := atoi s }
      else .usage (some portReason) { arg with port := atoi s } := by
  obtain ⟨hv, ha, hl, hh⟩ : s ≠ bytesOf "-v" ∧ s ≠ bytesOf "-a" ∧ s ≠ bytesOf "-l" ∧
      s ≠ bytesOf "-h" := by
    simpa only [IsOption, not_or] using hport
  have hlog' : { arg with port := atoi s }.logFile.isSome = true := hlog
  rw [parseLoop.eq_def]
  show (if _ then _ else if _ then _ else if _ then _ else if _ then _ else _) = _
  rw [if_neg hv, if_neg ha, if_neg hl, if_neg hh, plogd_of_log hlog', plogd_of_log hlog']
  by_cases hrange : 1 ≤ atoi s ∧ atoi s ≤ 65535
  · rw [if_pos hrange, if_neg (by show ¬ (atoi s < 1 ∨ 65535 < atoi s); omega),
      if_neg (by show ¬ atoi s = -1; omega)]
  · rw [if_neg hrange, if_pos (by show atoi s < 1 ∨ 65535 < atoi s; omega)]

/-- A file that cannot be opened, a port that is one, or a refusal with the log open. -/
theorem parseLoop_tail {tail : List Bytes} (htail : ArgTail opens tail)
    (hlog : arg.logFile.isSome = true) (hport : arg.port = -1) :
    (∃ f rest, tail = bytesOf "-l" :: f :: rest ∧ opens f = false) ∨
      (∃ s rest, tail = s :: rest ∧ ¬ IsOption s ∧ 1 ≤ atoi s ∧ atoi s ≤ 65535) ∨
        ∃ reason arg', parseLoop opens arg tail = .usage reason arg' ∧
          arg'.logFile.isSome = true := by
  cases htail with
  | missing =>
      have hres : parseLoop opens arg [] = .usage (some portReason) arg := by
        rw [parseLoop.eq_def]
        exact if_pos hport
      exact .inr (.inr ⟨_, arg, hres, hlog⟩)
  | noAddr =>
      have hres : parseLoop opens arg [bytesOf "-a"] =
          .usage (some "Cannot parse address") arg := by
        rw [parseLoop.eq_def]
        show (if _ then _ else if _ then _ else _) = _
        rw [if_neg (by decide), if_pos rfl]
      exact .inr (.inr ⟨_, arg, hres, hlog⟩)
  | noFile =>
      have hres : parseLoop opens arg [bytesOf "-l"] =
          .usage (some "Cannot open log file") arg := by
        rw [parseLoop.eq_def]
        show (if _ then _ else if _ then _ else if _ then _ else _) = _
        rw [if_neg (by decide), if_neg (by decide), if_pos rfl]
      exact .inr (.inr ⟨_, arg, hres, hlog⟩)
  | badFile hf => exact .inl ⟨_, _, rfl, hf⟩
  | @help rest =>
      have hres : parseLoop opens arg (bytesOf "-h" :: rest) = .usage none arg := by
        rw [parseLoop.eq_def]
        show (if _ then _ else if _ then _ else if _ then _ else if _ then _ else _) = _
        rw [if_neg (by decide), if_neg (by decide), if_neg (by decide), if_pos rfl]
      exact .inr (.inr ⟨_, arg, hres, hlog⟩)
  | @port s rest hs =>
      by_cases hrange : 1 ≤ atoi s ∧ atoi s ≤ 65535
      · exact .inr (.inl ⟨s, rest, rfl, hs, hrange⟩)
      · have hres : parseLoop opens arg (s :: rest) = _ := parseLoop_port hs hlog
        rw [if_neg hrange] at hres
        exact .inr (.inr ⟨_, _, hres, hlog⟩)

/-- The log stream is NULL behind a file that cannot be opened. -/
theorem parseLoop_badFile {f : Bytes} (hf : opens f = false) :
    parseLoop opens arg (bytesOf "-l" :: f :: rest) =
      .usage (some "Cannot open log file") { arg with logFile := none } := by
  rw [parseLoop.eq_def]
  show (if _ then _ else if _ then _ else if _ then (if _ then _ else _) else _) = _
  rw [if_neg (by decide), if_neg (by decide), if_pos rfl, if_neg (by rw [hf]; decide)]

-- ============================================================================
-- proxy_main
-- ============================================================================

/-- The settings at the start of proxy_parse_arg. -/
def argLogged : ProxyArg := { argInit with logFile := some (bytesOf "proxy.log") }

theorem proxyMainArg_eq (hlog : opens (bytesOf "proxy.log") = true)
    (hopens : ∀ o ∈ opts, o.Opens opens) (tail : List Bytes) :
    proxyMainArg opens (ArgOpt.renderAll opts ++ tail) =
      argRet (parseLoop opens (opts.foldl ArgOpt.apply argLogged) tail) := by
  have hinit : proxyLogInit opens argInit = argLogged := if_pos hlog
  have hstart : argLogged.logFile.isSome = true := rfl
  rw [proxyMainArg, hinit]
  show argLogged.plogd (argLogged.plogd _) = _
  rw [plogd_of_log hstart, plogd_of_log hstart, proxyParseArg, plogd_of_log hstart,
    parseLoop_options hopens hstart]

theorem foldl_apply_port (opts : List ArgOpt) :
    (opts.foldl ArgOpt.apply arg).port = arg.port := by
  induction opts generalizing arg with
  | nil => rfl
  | cons o opts ih =>
      rw [List.foldl_cons, ih]
      cases o <;> rfl

theorem foldl_apply_verbose (opts : List ArgOpt) :
    (opts.foldl ArgOpt.apply argLogged).verbose =
      if ArgOpt.verbose ∈ opts then PROXY_LOG_LEVEL_DEBUG else PROXY_LOG_LEVEL_INFO :=
  congrArg ProxyArg.verbose (foldl_apply opts [])

/-- A port behind options that can be carried out. -/
theorem proxyMainArg_port (hlog : opens (bytesOf "proxy.log") = true)
    (hopens : ∀ o ∈ opts, o.Opens opens) (hs : ¬ IsOption s)
    (hrange : 1 ≤ atoi s ∧ atoi s ≤ 65535) :
    proxyMainArg opens (ArgOpt.renderAll opts ++ s :: rest) = .ok (argSettings opts s) := by
  have hstay : (opts.foldl ArgOpt.apply argLogged).logFile.isSome = true :=
    foldl_apply_logFile opts rfl
  rw [proxyMainArg_eq hlog hopens, parseLoop_port hs hstay, if_pos hrange, ← foldl_apply]
  rfl

/-- A file that cannot be opened: the last message goes to NULL if it is not left out. -/
theorem proxyMainArg_badFile {f : Bytes} (hlog : opens (bytesOf "proxy.log") = true)
    (hopens : ∀ o ∈ opts, o.Opens opens) (hf : opens f = false) :
    proxyMainArg opens (ArgOpt.renderAll opts ++ bytesOf "-l" :: f :: rest) =
      if ArgOpt.verbose ∈ opts then .fault
      else .usage (some "Cannot open log file")
        { opts.foldl ArgOpt.apply argLogged with logFile := none } := by
  rw [proxyMainArg_eq hlog hopens, parseLoop_badFile hf]
  show ProxyArg.plogd { opts.foldl ArgOpt.apply argLogged with logFile := none } _ = _
  have hverbose := foldl_apply_verbose opts
  generalize opts.foldl ArgOpt.apply argLogged = arg at hverbose ⊢
  by_cases hv : ArgOpt.verbose ∈ opts
  · have hlow : ¬ PROXY_LOG_LEVEL_DEBUG < arg.verbose := by
      rw [hverbose, if_pos hv]
      exact Nat.lt_irrefl _
    rw [if_pos hv]
    exact (if_neg hlow).trans (if_neg Bool.false_ne_true)
  · have hhigh : PROXY_LOG_LEVEL_DEBUG < arg.verbose := by
      rw [hverbose, if_neg hv]
      decide
    rw [if_neg hv]
    exact if_pos hhigh

/-- What becomes of a command line. -/
theorem proxyMainArg_cases (hlog : opens (bytesOf "proxy.log") = true) (args : List Bytes) :
    (∃ opts s rest, args = ArgOpt.renderAll opts ++ s :: rest ∧ (∀ o ∈ opts, o.Opens opens) ∧
        ¬ IsOption s ∧ (1 ≤ atoi s ∧ atoi s ≤ 65535) ∧
        proxyMainArg opens args = .ok (argSettings opts s)) ∨
      (∃ opts f rest, args = ArgOpt.renderAll opts ++ bytesOf "-l" :: f :: rest ∧
        (∀ o ∈ opts, o.Opens opens) ∧ ArgOpt.verbose ∈ opts ∧ opens f = false ∧
        proxyMainArg opens args = .fault) ∨
      ∃ reason arg, proxyMainArg opens args = .usage reason arg := by
  obtain ⟨opts, tail, rfl, hopens, htail⟩ := options_split opens args
  have hstay : (opts.foldl ArgOpt.apply argLogged).logFile.isSome = true :=
    foldl_apply_logFile opts rfl
  rcases parseLoop_tail htail hstay (foldl_apply_port opts) with
    ⟨f, rest, rfl, hf⟩ | ⟨s, rest, rfl, hs, hrange⟩ | ⟨reason, arg, hres, hlog'⟩
  · have hmain : proxyMainArg opens (ArgOpt.renderAll opts ++ bytesOf "-l" :: f :: rest) = _ :=
      proxyMainArg_badFile hlog hopens hf
    by_cases hv : ArgOpt.verbose ∈ opts
    · rw [if_pos hv] at hmain
      exact .inr (.inl ⟨opts, f, rest, rfl, hopens, hv, hf, hmain⟩)
    · rw [if_neg hv] at hmain
      exact .inr (.inr ⟨_, _, hmain⟩)
  · exact .inl ⟨opts, s, rest, rfl, hopens, hs, hrange, proxyMainArg_port hlog hopens hs hrange⟩
  · refine .inr (.inr ⟨reason, arg, ?_⟩)
    rw [proxyMainArg_eq hlog hopens, hres]
    exact plogd_of_log hlog'

/-- Where proxy.log can be opened, the program starts exactly with options whose files can
    be opened, in any order and number, and a port behind them; of each kind of option the
    last one counts, and the arguments behind the port do not.  It writes to a NULL stream
    exactly when a file cannot be opened behind `-v`; anything else it refuses. -/
theorem proxyMainArg_accepts (hlog : opens (bytesOf "proxy.log") = true) (args : List Bytes) :
    (∀ arg, proxyMainArg opens args = .ok arg ↔
      ∃ opts port rest, args = ArgOpt.renderAll opts ++ port :: rest ∧
        (∀ o ∈ opts, o.Opens opens) ∧ ¬ IsOption port ∧ (1 ≤ atoi port ∧ atoi port ≤ 65535) ∧
        arg = argSettings opts port) ∧
      (proxyMainArg opens args = .fault ↔
        ∃ opts f rest, args = ArgOpt.renderAll opts ++ bytesOf "-l" :: f :: rest ∧
          (∀ o ∈ opts, o.Opens opens) ∧ ArgOpt.verbose ∈ opts ∧ opens f = false) := by
  constructor
  · intro arg
    constructor
    · intro hok
      rcases proxyMainArg_cases hlog args with
        ⟨opts, s, rest, rfl, hopens, hs, hrange, hmain⟩ | ⟨_, _, _, _, _, _, _, hmain⟩ |
          ⟨reason, arg', hmain⟩
      · rw [hmain] at hok
        exact ⟨opts, s, rest, rfl, hopens, hs, hrange, (ArgRes.ok.inj hok).symm⟩
      · rw [hmain] at hok
        exact ArgRes.noConfusion hok
      · rw [hmain] at hok
        exact ArgRes.noConfusion hok
    · rintro ⟨opts, s, rest, rfl, hopens, hs, hrange, rfl⟩
      exact proxyMainArg_port hlog hopens hs hrange
  · constructor
    · intro hfault
      rcases proxyMainArg_cases hlog args with
        ⟨_, _, _, _, _, _, _, hmain⟩ | ⟨opts, f, rest, rfl, hopens, hv, hf, -⟩ |
          ⟨reason, arg', hmain⟩
      · rw [hmain] at hfault
        exact ArgRes.noConfusion hfault
      · exact ⟨opts, f, rest, rfl, hopens, hv, hf⟩
      · rw [hmain] at hfault
        exact ArgRes.noConfusion hfault
    · rintro ⟨opts, f, rest, rfl, hopens, hv, hf⟩
      rw [proxyMainArg_badFile hlog hopens hf, if_pos hv]

/-- `proxy -v -l x/y 80`, where only proxy.log can be opened. -/
theorem proxyMainArg_accepts_verbose :
    proxyMainArg (fun f => f = bytesOf "proxy.log")
      [bytesOf "-v", bytesOf "-l", bytesOf "x/y", bytesOf "80"] = .fault := by
  have hopens : ∀ o ∈ [ArgOpt.verbose], o.Opens fun f => f = bytesOf "proxy.log" := by
    intro o ho f hf
    rw [List.mem_singleton.mp ho] at hf
    exact ArgOpt.noConfusion hf
  have hfault := (@proxyMainArg_accepts (fun f => f = bytesOf "proxy.log") (decide_eq_true rfl)
    [bytesOf "-v", bytesOf "-l", bytesOf "x/y", bytesOf "80"]).2
  exact hfault.mpr ⟨[.verbose], bytesOf "x/y", [bytesOf "80"], rfl, hopens, by decide, by decide⟩

end

end HttpProxy
