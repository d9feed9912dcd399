import EmbeddedSolidity.Shell.Arithmetic

/-!
# Signals

The signals by their names and numbers, and what becomes of a process that gets one.

* `Signal.number?` : the number of a signal that a text names;
* `Signal.ending?` : what is said of a process that a signal has ended.
-/

namespace EmbeddedSolidity.Shell.Signal

/-- The names of the signals in the order of their numbers; zero stands for the end. -/
def names : List String :=
  ["EXIT", "HUP", "INT", "QUIT", "ILL", "TRAP", "ABRT", "BUS", "FPE", "KILL", "USR1", "SEGV",
    "USR2", "PIPE", "ALRM", "TERM", "16", "CHLD", "CONT", "STOP", "TSTP", "TTIN", "TTOU",
    "URG", "XCPU", "XFSZ", "VTALRM", "PROF", "WINCH", "IO", "PWR", "SYS"]

/-- The name of the signal of a number. -/
def name (n : Nat) : String :=
  match names[n]? with
  | some text => text
  | none =>
    if n == 34 then "RTMIN"
    else if 34 < n && n < 50 then "RTMIN+" ++ toString (n - 34)
    else if 50 ≤ n && n < 64 then "RTMAX-" ++ toString (64 - n)
    else if n == 64 then "RTMAX"
    else toString n

/-- The decimal number that a text is. -/
def decimal? (text : String) : Option Nat :=
  let cs := text.toList
  if cs.isEmpty || !cs.all Char.isDigit then none
  else some (Arithmetic.ofDigits 10 (cs.map (·.toNat - 48)))

/-- The number of a signal that a text names, by its number or by its name in any case. -/
def number? (least : Nat) (text : String) : Option Nat :=
  match decimal? text with
  | some n => if least ≤ n && n < 65 then some n else none
  | none => (List.range 65).find? fun n => least ≤ n && name n == text.toUpper

/-- The signal changes nothing unless something else is asked for. -/
def isHarmless (n : Nat) : Bool :=
  [0, 17, 18, 23, 28].contains n

/-- What is said of a process that a signal has ended. -/
def ending? (n : Nat) : Option String :=
  match n with
  | 1 => some "Hangup"
  | 3 => some "Quit"
  | 4 => some "Illegal instruction"
  | 5 => some "Trace/breakpoint trap"
  | 6 => some "Aborted"
  | 7 => some "Bus error"
  | 8 => some "Floating point exception"
  | 9 => some "Killed"
  | 10 => some "User defined signal 1"
  | 11 => some "Segmentation fault"
  | 12 => some "User defined signal 2"
  | 14 => some "Alarm clock"
  | 15 => some "Terminated"
  | 24 => some "CPU time limit exceeded"
  | 25 => some "File size limit exceeded"
  | 26 => some "Virtual timer expired"
  | 27 => some "Profiling timer expired"
  | 29 => some "I/O possible"
  | 30 => some "Power failure"
  | 31 => some "Bad system call"
  | _ => none

end EmbeddedSolidity.Shell.Signal
