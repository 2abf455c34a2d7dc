import Schematic.File.Tree
import Schematic.Report

/-! # Commands

A command reads its arguments and its input, changes a tree of files, and answers with two texts and
a number. -/

namespace Schematic

inductive Complaint where
  | text (lines : List String)
  | failure (doing : String) (reason : Failure)
  deriving DecidableEq, Repr

def Complaint.lines : Complaint → List String
  | .text lines => lines
  | .failure doing reason => [doing ++ ": " ++ reason.message]

structure Answer where
  exit : Nat := 0
  question : String := ""
  output : String := ""
  complaints : List Complaint := []
  tree : FileTree

namespace Answer

def refusal (tree : FileTree) (complaint : Complaint) : Answer :=
  { exit := 1, complaints := [complaint], tree }

def printed (answer : Answer) : String :=
  answer.question ++ answer.output

end Answer

def linesText (lines : List String) : String :=
  String.join (lines.map (· ++ "\n"))

end Schematic
