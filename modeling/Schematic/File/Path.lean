import Schematic.Text.Split

/-! # Paths

Paths are texts whose elements are divided by slashes. Two paths to one place have one clean
form. -/

namespace Schematic.Path

def isAbsolute (path : String) : Bool :=
  Text.startsWith path "/"

def elements (path : String) : List String :=
  (Text.splitAt '/' path).filter fun element => element ≠ "" && element ≠ "."

def addElement (rooted : Bool) (reversed : List String) (element : String) : List String :=
  if element ≠ ".." then element :: reversed
  else
    match reversed with
    | [] => if rooted then [] else [".."]
    | last :: rest => if last = ".." then ".." :: last :: rest else rest

def resolved (path : String) : List String :=
  ((elements path).foldl (addElement (isAbsolute path)) []).reverse

def clean (path : String) : String :=
  let joined := "/".intercalate (resolved path)
  if isAbsolute path then "/" ++ joined
  else if joined = "" then "."
  else joined

def join (paths : List String) : String :=
  match paths.filter (· ≠ "") with
  | [] => ""
  | paths => clean ("/".intercalate paths)

def base (path : String) : String :=
  match (Text.splitAt '/' path).filter (· ≠ "") |>.getLast? with
  | some element => element
  | none => if path = "" then "." else "/"

def directory (path : String) : String :=
  let reversed := path.toList.reverse.dropWhile (· != '/')
  clean (String.ofList reversed.reverse)

def extension (path : String) : String :=
  let last := path.toList.reverse.takeWhile (· != '/')
  if last.contains '.' then String.ofList ('.' :: (last.takeWhile (· != '.')).reverse) else ""

def withoutExtension (path : String) : String :=
  Text.withoutEnd (extension path) path

def behindCommon : List String → List String → List String × List String
  | a :: as, b :: bs => if a = b then behindCommon as bs else (a :: as, b :: bs)
  | as, bs => (as, bs)

def relative? (start target : String) : Option String :=
  if isAbsolute start != isAbsolute target then none
  else
    let (up, down) := behindCommon (resolved start) (resolved target)
    if up.contains ".." then none
    else
      let path := "/".intercalate (List.replicate up.length ".." ++ down)
      some (if path = "" then "." else path)

end Schematic.Path
