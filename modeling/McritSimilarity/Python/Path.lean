import McritSimilarity.Python.Text

/-!
# POSIX paths

`os.path.expanduser`, `os.path.abspath` and the two operations of `pathlib` that the plugin uses on
paths, as functions of the working directory and the home directories.
-/

set_option autoImplicit false

namespace Python

/-- What path operations read of the process: the working directory, the home directory and the home
directories of named users. -/
structure PathEnv where
  cwd : List Char
  home : List Char
  homeOf : List Char → Option (List Char)

/-- `text.rstrip("/")`. -/
def stripSlashes (cs : List Char) : List Char := (cs.reverse.dropWhile (· = '/')).reverse

def orSlash (cs : List Char) : List Char := if cs = [] then ['/'] else cs

/-- `os.path.expanduser`. -/
def expanduser (env : PathEnv) (path : List Char) : List Char :=
  match path with
  | '~' :: rest =>
    let user := rest.takeWhile (· ≠ '/')
    let tail := rest.dropWhile (· ≠ '/')
    if user = [] then orSlash (stripSlashes env.home ++ tail)
    else match env.homeOf user with
      | some home => orSlash (stripSlashes home ++ tail)
      | none => path
  | _ => path

/-- The slashes a path keeps in front: two when there are exactly two. -/
def rootOf : List Char → List Char
  | '/' :: '/' :: '/' :: _ => ['/']
  | '/' :: '/' :: _ => ['/', '/']
  | '/' :: _ => ['/']
  | _ => []

/-- One component of `os.path.normpath`, on the reversed components so far. -/
def normStep (rooted : Bool) (parts : List (List Char)) (part : List Char) : List (List Char) :=
  if part = [] ∨ part = ['.'] then parts
  else if part ≠ ['.', '.'] then part :: parts
  else match parts with
    | [] => if rooted then [] else [part]
    | last :: rest => if last = ['.', '.'] then part :: parts else rest

def joinSlash (parts : List (List Char)) : List Char := ['/'].intercalate parts

def orDot (cs : List Char) : List Char := if cs = [] then ['.'] else cs

/-- `os.path.normpath`. -/
def normpath (path : List Char) : List Char :=
  let root := rootOf path
  orDot (root ++ joinSlash ((split '/' path).foldl (normStep (root ≠ [])) []).reverse)

/-- `os.path.join(cwd, path)` for a path that is not absolute. -/
def underCwd (env : PathEnv) (path : List Char) : List Char :=
  if env.cwd = [] ∨ env.cwd.getLast? = some '/' then env.cwd ++ path else env.cwd ++ '/' :: path

/-- `os.path.abspath`. -/
def abspath (env : PathEnv) (path : List Char) : List Char :=
  normpath (if rootOf path ≠ [] then path else underCwd env path)

/-- The components of `pathlib.Path(path)`. -/
def pathParts (path : List Char) : List (List Char) :=
  (split '/' path).filter fun part => part ≠ [] && part ≠ ['.']

/-- `str(pathlib.Path(path))`. -/
def pathText (path : List Char) : List Char := orDot (rootOf path ++ joinSlash (pathParts path))

/-- `target.with_name(target.name + suffix)` for `target = Path(path)`; `none` where it raises
`ValueError` because the path has no name. -/
def withNameSuffix (path suffix : List Char) : Option (List Char) :=
  if pathParts path = [] then none else some (pathText path ++ suffix)

example : abspath ⟨"/home/a".toList, "/home/a/".toList, fun _ => none⟩
    (expanduser ⟨"/home/a".toList, "/home/a/".toList, fun _ => none⟩ "~/x/./../c.json".toList) =
      "/home/a/c.json".toList := by decide

example : withNameSuffix "//a//./c.json/".toList ".partial".toList =
    some "//a/c.json.partial".toList := by decide

end Python
