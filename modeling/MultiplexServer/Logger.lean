import Mathlib.Tactic.Common

/-! Which messages are written. A level is on if messages go to the console or into a file
and the configured level is not above it; a level that the logger does not know counts as
`info`. The answers are computed once, when the configuration has become valid. -/

namespace MultiplexServer

inductive LogLevel where
  | trace
  | debug
  | info
  | warn
  | error
  | fatal
  deriving DecidableEq

namespace LogLevel

def name : LogLevel → String
  | trace => "trace"
  | debug => "debug"
  | info => "info"
  | warn => "warn"
  | error => "error"
  | fatal => "fatal"

def severity : LogLevel → Nat
  | trace => 0
  | debug => 1
  | info => 2
  | warn => 3
  | error => 4
  | fatal => 5

theorem name_injective {level level' : LogLevel} (h : level.name = level'.name) :
    level = level' := by
  cases level <;> cases level' <;> first | rfl | exact absurd h (by decide)

end LogLevel

structure LogConfig where
  valid : Bool
  console : Bool
  output : Bool
  level : String

namespace LogConfig

/-- `trace` is counted twice, and `info` is not counted. -/
def counted : List LogLevel := [.trace, .debug, .warn, .trace, .error, .fatal]

def allLevelsOff (c : LogConfig) : Bool :=
  c.valid && counted.countP (fun level => c.level = level.name) = 0

def isWritten (c : LogConfig) : Bool := c.valid && (c.console || c.output)

def isTraceOn (c : LogConfig) : Bool := c.isWritten && c.level = LogLevel.trace.name

def isDebugOn (c : LogConfig) : Bool :=
  c.isWritten && (c.level = LogLevel.debug.name || c.isTraceOn)

def isOnAbove (c : LogConfig) (level : LogLevel) (below : Bool) : Bool :=
  c.isWritten && (if c.allLevelsOff then true else c.level = level.name || below)

def isInfoOn (c : LogConfig) : Bool := c.isOnAbove .info c.isDebugOn

def isWarnOn (c : LogConfig) : Bool := c.isOnAbove .warn c.isInfoOn

def isErrorOn (c : LogConfig) : Bool := c.isOnAbove .error c.isWarnOn

def isFatalOn (c : LogConfig) : Bool := c.isOnAbove .fatal c.isErrorOn

def isLevelOn (c : LogConfig) : LogLevel → Bool
  | .trace => c.isTraceOn
  | .debug => c.isDebugOn
  | .info => c.isInfoOn
  | .warn => c.isWarnOn
  | .error => c.isErrorOn
  | .fatal => c.isFatalOn

def threshold (c : LogConfig) : LogLevel :=
  (counted.find? fun level => c.level = level.name).getD .info

theorem threshold_cases (c : LogConfig) :
    c.threshold = .info ∧ (∀ level ∈ counted, c.level ≠ level.name) ∨
      c.threshold ∈ counted ∧ c.level = c.threshold.name := by
  unfold threshold
  cases hfind : counted.find? (fun level => c.level = level.name) with
  | none =>
    refine .inl ⟨rfl, fun level hlevel => ?_⟩
    simpa using List.find?_eq_none.mp hfind level hlevel
  | some level =>
    refine .inr ⟨List.mem_of_find?_eq_some hfind, ?_⟩
    simpa using List.find?_some hfind

/-- A message is written if messages are, from the level that is meant on. -/
theorem isLevelOn_iff (c : LogConfig) (level : LogLevel) :
    c.isLevelOn level = true ↔
      c.isWritten = true ∧ c.threshold.severity ≤ level.severity := by
  cases hwritten : c.isWritten with
  | false =>
    cases level <;> simp [isLevelOn, isTraceOn, isDebugOn, isInfoOn, isWarnOn, isErrorOn,
      isFatalOn, isOnAbove, hwritten]
  | true =>
    have hvalid : c.valid = true := (Bool.and_eq_true_iff.mp hwritten).1
    rcases c.threshold_cases with ⟨hinfo, hnone⟩ | ⟨hmem, hname⟩
    · have hoff : c.allLevelsOff = true := by
        rw [allLevelsOff, hvalid, Bool.true_and, decide_eq_true_eq, List.countP_eq_zero]
        exact fun level hlevel => by simpa using hnone level hlevel
      have htrace := hnone .trace (by decide)
      have hdebug := hnone .debug (by decide)
      rw [hinfo]
      cases level <;> simp [isLevelOn, isTraceOn, isDebugOn, isInfoOn, isWarnOn, isErrorOn,
        isFatalOn, isOnAbove, hwritten, hoff, htrace, hdebug, LogLevel.severity]
    · have hoff : c.allLevelsOff = false := by
        rw [allLevelsOff, hvalid, Bool.true_and, decide_eq_false_iff_not, List.countP_eq_zero]
        exact fun hnone => by simpa [hname] using hnone c.threshold hmem
      have hequal : ∀ level : LogLevel, c.level = level.name ↔ c.threshold = level :=
        fun level => ⟨fun h => LogLevel.name_injective (hname.symm.trans h), fun h => h ▸ hname⟩
      simp only [counted, List.mem_cons, List.not_mem_nil, or_false] at hmem
      rcases hmem with hmem | hmem | hmem | hmem | hmem | hmem <;> cases level <;>
        simp [isLevelOn, isTraceOn, isDebugOn, isInfoOn, isWarnOn, isErrorOn, isFatalOn,
          isOnAbove, hwritten, hoff, hequal, hmem, LogLevel.severity]

theorem isFatalOn_eq (c : LogConfig) : c.isFatalOn = c.isWritten := by
  rw [Bool.eq_iff_iff]
  refine (c.isLevelOn_iff .fatal).trans (and_iff_left ?_)
  cases c.threshold <;> decide

end LogConfig

end MultiplexServer
