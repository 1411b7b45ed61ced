import ClapRci.Lib.CommandLine
import ClapRci.Lib.CString

/-!
# The arguments of a child process (`core/processhandle.cpp`)

What arrives in `argv` of the child: the POSIX branch of `startChild` passes it as it is, the
Windows branch passes a command line, which the C runtime of the child splits again. There a
symbolic link is resolved first, and each argument is put between quotes as it is.

* `argv_eq_iff`: the arguments that arrive on Windows as they were.
-/

namespace ClapRci.ProcessHandle

namespace Posix

/-- `argv`, which `startChild` makes of `mPath.c_str()` and the `c_str()` of each argument. -/
def argv (mPath : List UInt8) (mArgs : List (List UInt8)) : List (List UInt8) :=
  (mPath :: mArgs).map CString.ofBytes

/-- Without NULs, `execv` gets path and arguments. -/
theorem argv_eq {mPath : List UInt8} {mArgs : List (List UInt8)} (hpath : 0 ∉ mPath)
    (hargs : ∀ arg ∈ mArgs, 0 ∉ arg) : argv mPath mArgs = mPath :: mArgs := by
  have hall : ∀ word ∈ mPath :: mArgs, CString.ofBytes word = id word := by
    intro word hword
    apply CString.ofBytes_eq_self.mpr
    rcases List.mem_cons.mp hword with rfl | harg
    · exact hpath
    · exact hargs word harg
  rw [argv, List.map_congr_left hall, List.map_id]

end Posix

namespace Windows

/-- The rules of the Microsoft C runtime. -/
def crtRules : CommandLine.Rules UInt8 where
  quote := 34
  backslash := 92
  isBlank b := b = 32 || b = 9
  backslash_ne_quote := by decide
  quote_not_blank := by decide
  backslash_not_blank := by decide

/-- `resolvedPath`; `readSymlink` is `read_symlink` on what `is_symlink` finds to be one. -/
def resolvedPath (readSymlink : List UInt8 → Option (List UInt8)) (mPath : List UInt8) :
    List UInt8 :=
  (readSymlink mPath).getD mPath

/-- `argsStr`: each argument between quotes, without the blank behind the last one. -/
def argsStr (mArgs : List (List UInt8)) : List UInt8 :=
  let argsStr := mArgs.foldl (fun argsStr arg => argsStr ++ ([34] ++ arg ++ [34, 32])) []
  if argsStr = [] then argsStr else argsStr.dropLast

/-- `cmdLine`. -/
def cmdLine (appPathStr : List UInt8) (mArgs : List (List UInt8)) : List UInt8 :=
  [34] ++ appPathStr ++ [34, 32] ++ argsStr mArgs

/-- `argv` of the child, which its C runtime makes of `cmdLine.c_str()`. -/
def argv (readSymlink : List UInt8 → Option (List UInt8)) (mPath : List UInt8)
    (mArgs : List (List UInt8)) : List (List UInt8) :=
  CommandLine.split crtRules (CString.ofBytes (cmdLine (resolvedPath readSymlink mPath) mArgs))

/-! ## The command line -/

section CmdLine

variable {appPathStr : List UInt8} {mArgs : List (List UInt8)}

theorem foldl_args (acc : List UInt8) (mArgs : List (List UInt8)) :
    mArgs.foldl (fun argsStr arg => argsStr ++ ([34] ++ arg ++ [34, 32])) acc =
      acc ++ mArgs.flatMap fun arg => CommandLine.quote crtRules arg ++ [32] := by
  induction mArgs generalizing acc with
  | nil => rw [List.foldl_nil, List.flatMap_nil, List.append_nil]
  | cons arg mArgs ih =>
    rw [List.foldl_cons, ih, List.flatMap_cons, List.append_assoc]
    simp [CommandLine.quote, crtRules]

theorem flatMap_args (arg : List UInt8) (mArgs : List (List UInt8)) :
    ((arg :: mArgs).flatMap fun arg => CommandLine.quote crtRules arg ++ [32]) =
      [32].intercalate ((arg :: mArgs).map (CommandLine.quote crtRules)) ++ [32] := by
  induction mArgs generalizing arg with
  | nil => simp [List.intercalate]
  | cons arg' mArgs ih =>
    rw [List.flatMap_cons, ih]
    simp [List.intercalate]

/-- Blanks stand between the arguments only. -/
theorem argsStr_eq (mArgs : List (List UInt8)) :
    argsStr mArgs = [32].intercalate (mArgs.map (CommandLine.quote crtRules)) := by
  unfold argsStr
  rw [foldl_args, List.nil_append]
  cases mArgs with
  | nil => rfl
  | cons arg mArgs =>
    rw [flatMap_args, if_neg (List.concat_ne_nil _ _), List.dropLast_concat]

theorem cmdLine_eq (appPathStr : List UInt8) (mArgs : List (List UInt8)) :
    cmdLine appPathStr mArgs = CommandLine.quote crtRules appPathStr ++
      32 :: [32].intercalate (mArgs.map (CommandLine.quote crtRules)) := by
  rw [cmdLine, argsStr_eq]
  simp [CommandLine.quote, crtRules]

theorem zero_mem_argsStr : 0 ∈ argsStr mArgs ↔ ∃ arg ∈ mArgs, 0 ∈ arg := by
  rw [argsStr_eq]
  cases mArgs with
  | nil => simp [List.intercalate]
  | cons arg mArgs =>
    have hquote : ∀ arg : List UInt8, 0 ∈ CommandLine.quote crtRules arg ++ [32] ↔ 0 ∈ arg := by
      intro arg
      simp [CommandLine.quote, crtRules]
    calc 0 ∈ [32].intercalate ((arg :: mArgs).map (CommandLine.quote crtRules))
      _ ↔ 0 ∈ [32].intercalate ((arg :: mArgs).map (CommandLine.quote crtRules)) ++ [32] := by
        simp
      _ ↔ ∃ arg' ∈ arg :: mArgs, 0 ∈ arg' := by
        simp only [← flatMap_args, List.mem_flatMap, hquote]

theorem zero_not_mem_cmdLine :
    0 ∉ cmdLine appPathStr mArgs ↔ 0 ∉ appPathStr ∧ ∀ arg ∈ mArgs, 0 ∉ arg := by
  have hmem : 0 ∈ cmdLine appPathStr mArgs ↔ 0 ∈ appPathStr ∨ 0 ∈ argsStr mArgs := by
    simp [cmdLine]
  rw [hmem, zero_mem_argsStr, not_or, not_exists]
  simp only [not_and]

/-- Path and arguments arrive as they are exactly when the path has no quote, the arguments
are those which are read back, and no NUL cuts the line off. -/
theorem split_cmdLine_iff (appPathStr : List UInt8) (mArgs : List (List UInt8)) :
    CommandLine.split crtRules (CString.ofBytes (cmdLine appPathStr mArgs)) =
        appPathStr :: mArgs ↔
      (0 ∉ appPathStr ∧ ∀ arg ∈ mArgs, 0 ∉ arg) ∧ 34 ∉ appPathStr ∧
        CommandLine.ReadBack crtRules mArgs := by
  have hblank : crtRules.isBlank 32 = true := by decide
  have hsplit : CommandLine.split crtRules (cmdLine appPathStr mArgs) = appPathStr :: mArgs ↔
      34 ∉ appPathStr ∧ CommandLine.ReadBack crtRules mArgs := by
    rw [cmdLine_eq, CommandLine.split_quote hblank, CommandLine.words_line hblank]
    rfl
  constructor
  · intro h
    have hnul : ∀ word ∈ appPathStr :: mArgs, 0 ∉ word := by
      intro word hword
      rw [← h] at hword
      exact CommandLine.not_mem_split (by decide) (by decide) (CString.zero_not_mem_ofBytes _) hword
    have hparts := List.forall_mem_cons.mp hnul
    rw [CString.ofBytes_eq_self.mpr (zero_not_mem_cmdLine.mpr hparts), hsplit] at h
    exact ⟨hparts, h⟩
  · rintro ⟨hnul, h⟩
    rw [CString.ofBytes_eq_self.mpr (zero_not_mem_cmdLine.mpr hnul)]
    exact hsplit.mpr h

end CmdLine

/-- What the child gets on Windows: the path behind a symbolic link, and the arguments. -/
theorem argv_eq_iff (readSymlink : List UInt8 → Option (List UInt8)) (mPath : List UInt8)
    (mArgs : List (List UInt8)) :
    argv readSymlink mPath mArgs = resolvedPath readSymlink mPath :: mArgs ↔
      (0 ∉ resolvedPath readSymlink mPath ∧ ∀ arg ∈ mArgs, 0 ∉ arg) ∧
        34 ∉ resolvedPath readSymlink mPath ∧ CommandLine.ReadBack crtRules mArgs :=
  split_cmdLine_iff _ _

end Windows

/-- For a path without quotes, and arguments without quotes and without a backslash at the
end, the child gets the arguments as they are, and the path with a symbolic link resolved. For
a path that is none, this is what it gets on the other platforms. -/
theorem argv_faithful (readSymlink : List UInt8 → Option (List UInt8)) (mPath : List UInt8)
    (mArgs : List (List UInt8))
    (hpath : 0 ∉ Windows.resolvedPath readSymlink mPath ∧
      34 ∉ Windows.resolvedPath readSymlink mPath)
    (hargs : ∀ arg ∈ mArgs, 0 ∉ arg ∧ 34 ∉ arg ∧ arg.getLast? ≠ some 92) :
    Windows.argv readSymlink mPath mArgs = Windows.resolvedPath readSymlink mPath :: mArgs ∧
      (readSymlink mPath = none →
        Windows.argv readSymlink mPath mArgs = Posix.argv mPath mArgs) := by
  have hnul : ∀ arg ∈ mArgs, 0 ∉ arg := fun arg harg => (hargs arg harg).1
  have hplain : ∀ arg ∈ mArgs, CommandLine.Plain Windows.crtRules arg := by
    intro arg harg
    exact ⟨(hargs arg harg).2.1, (hargs arg harg).2.2⟩
  have hwindows := (Windows.argv_eq_iff readSymlink mPath mArgs).mpr
    ⟨⟨hpath.1, hnul⟩, hpath.2, CommandLine.ReadBack.of_plain hplain⟩
  refine ⟨hwindows, ?_⟩
  intro hlink
  have hresolved : Windows.resolvedPath readSymlink mPath = mPath := by
    rw [Windows.resolvedPath, hlink, Option.getD_none]
  rw [hresolved] at hwindows hpath
  rw [hwindows, Posix.argv_eq hpath.1 hnul]

/-- With arguments that are empty, contain a blank, and contain a backslash. -/
theorem argv_faithful_three :
    Windows.argv (fun _ => none) [97] [[], [98, 32, 99], [92, 100]] =
      [[97], [], [98, 32, 99], [92, 100]] :=
  (argv_faithful (fun _ => none) [97] [[], [98, 32, 99], [92, 100]] (by decide) (by decide)).1

/-- A path that is a symbolic link, and an argument that is one backslash. -/
theorem argv_differs :
    (¬∀ readSymlink mPath mArgs, Windows.argv readSymlink mPath mArgs = Posix.argv mPath mArgs) ∧
      ¬∀ mPath mArgs, Windows.argv (fun _ => none) mPath mArgs = mPath :: mArgs := by
  constructor
  · intro h
    exact absurd (h (fun _ => some [98]) [97] []) (by decide)
  · intro h
    exact absurd (h [97] [[92]]) (by decide)

end ClapRci.ProcessHandle
