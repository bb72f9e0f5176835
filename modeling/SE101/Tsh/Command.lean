import SE101.Lib.CString
import SE101.Tsh.Jobs

set_option relaxedAutoImplicit false
set_option autoImplicit false

/-!
# Command lines

How the shell splits a command line into arguments, and what it takes the arguments for.

## Main definitions

* `Tsh.parseline` — the arguments, and whether the job is to run in the background.
* `Tsh.builtinCmd` — the builtin command that the arguments are.
* `Tsh.JobList.lookup` — the job that an argument of `fg` or `bg` names.

## Design

`parseline` walks through a buffer and cuts it by writing `NUL`s. The definition passes on what
is left of the buffer instead. The `argv` of the C code has room for 128 entries and is written
without a check; the list has no bound.
-/

namespace Tsh

open LittleEndian CString

/-- The blank. -/
abbrev blank : Byte := 32#8

/-- The single quote. -/
abbrev quote : Byte := 39#8

/-- `strchr(buf, c)`: what stands before the first `c` and what follows it. -/
def cutAt (c : Byte) (buf : List Byte) : Option (List Byte × List Byte) :=
  if c ∈ buf then some (buf.takeWhile (· ≠ c), (buf.dropWhile (· ≠ c)).tail) else none

/-- The next argument: up to the closing quote if the text begins with a quote, up to a blank
otherwise. -/
def nextArg : List Byte → Option (List Byte × List Byte)
  | 39#8 :: buf => cutAt quote buf
  | buf => cutAt blank buf

/-- The rest after a cut is shorter. -/
lemma length_cutAt {c : Byte} {buf arg rest : List Byte} (h : cutAt c buf = some (arg, rest)) :
    rest.length < buf.length := by
  unfold cutAt at h
  split_ifs at h with hc
  cases h
  have hd : (buf.dropWhile (· ≠ c)).length ≤ buf.length := (List.dropWhile_suffix _).length_le
  have hb : 0 < buf.length := List.length_pos_of_mem hc
  rw [List.length_tail]
  omega

/-- The rest after an argument is shorter. -/
lemma length_nextArg {buf arg rest : List Byte} (h : nextArg buf = some (arg, rest)) :
    rest.length < buf.length := by
  unfold nextArg at h
  split at h
  · exact Nat.lt_succ_of_lt (length_cutAt h)
  · exact length_cutAt h

/-- `while (*buf && (*buf == ' ')) buf++;` -/
def skipBlanks (buf : List Byte) : List Byte := buf.dropWhile (· == blank)

/-- The loop of `parseline`: arguments as long as a delimiter is found. -/
def args (buf : List Byte) : List (List Byte) :=
  match _h : nextArg buf with
  | some (arg, rest) => arg :: args (skipBlanks rest)
  | none => []
  termination_by buf.length
  decreasing_by
    have hs : (skipBlanks rest).length ≤ rest.length := (List.dropWhile_suffix _).length_le
    have := length_nextArg (by assumption)
    omega

/-- `parseline`: the last character of the line is replaced by a blank; the line is split into
arguments; a last argument that begins with `&` is removed and asks for the background. -/
def parseline (cmdline : List Byte) : List (List Byte) × Bool :=
  let argv := args (skipBlanks (cmdline.dropLast ++ [blank]))
  match argv.getLast? with
  | none => ([], true)
  | some arg => if arg.head? = some 38#8 then (argv.dropLast, true) else (argv, false)

/-- The commands `fg` and `bg`. -/
inductive Bgfg
  | fg
  | bg
  deriving DecidableEq, Repr

/-- The state that the command gives the job. -/
def Bgfg.state : Bgfg → JobState
  | fg => .fg
  | bg => .bg

/-- What `builtin_cmd` does. -/
inductive Builtin
  /-- `quit`: the shell exits. -/
  | exit
  /-- The command is done: `jobs`, and a lone `&`. -/
  | done
  /-- `do_bgfg`, with the argument if there is one. -/
  | bgfg (cmd : Bgfg) (para : Option (List Byte))
  /-- No builtin command. -/
  | none

/-- `builtin_cmd`. -/
def builtinCmd (cmd : List Byte) (para : Option (List Byte)) : Builtin :=
  if cmd = ascii "quit" then .exit
  else if cmd = ascii "jobs" then .done
  else if cmd = ascii "fg" then .bgfg .fg para
  else if cmd = ascii "bg" then .bgfg .bg para
  else if cmd = ascii "&" then .done
  else .none

/-- The first part of `do_bgfg`: the job that the argument names, by `%jid` or by pid. Without an
argument, for an argument that is no number, and for one that names no job, a message is printed
and the command is done. -/
def JobList.lookup (jobs : JobList) : Option (List Byte) → Option (Fin MAXJOBS)
  | none => none
  | some (37#8 :: para) => if atoi para = 0 then none else jobs.getjobjid (atoi para).toNat
  | some para => if atoi para = 0 then none else jobs.getjobpid (atoi para).toNat

end Tsh
