import WebServer.Ftp.UserManager
import WebServer.Lib.Program
import WebServer.Utility.SocketUtils

/-!
# Ftp/FileOperator — the files of a session

A session is the state of the connection, of its `FileOperator`, and of the system around them.
What the system answers to its `n`-th call is an `Os`; the calls are kept in the order they are
made.  A program dies where the code reads through a null pointer, calls itself deeper than its
stack allows, or leaves an exception uncaught.  Where the code answers `EXIT_SUCCESS` or
`EXIT_FAILURE`, `true` is the failure.
-/

namespace WebServer.Ftp

open Utility (ReadResult WriteResult)

/-! ## The system -/

/-- How a file is opened: to be read, to be written from its beginning, or to be added to. -/
inductive OpenMode
  | input
  | trunc
  | app
  deriving DecidableEq

/-- What is asked of the system, under a path. -/
inductive SysCall
  | opendir (path : Bytes)
  | openFile (mode : OpenMode) (path : Bytes)
  | mkdir (path : Bytes)
  | remove (path : Bytes)
  | rmdir (path : Bytes)
  deriving DecidableEq

def SysCall.path : SysCall → Bytes
  | opendir p | openFile _ p | mkdir p | remove p | rmdir p => p

/-- A directory entry: its name, and whether its type is `DT_DIR`. -/
structure Dirent where
  name : Bytes
  isDir : Bool

/-- **What the system answers** to its `n`-th call.  A file that opens, or that is removed, is named
by a number. -/
structure Os where
  opendir : ℕ → Bytes → Option (List Dirent)
  openFile : ℕ → Bytes → Option ℕ
  mkdir : ℕ → Bytes → Bool
  remove : ℕ → Bytes → Option ℕ
  rmdir : ℕ → Bytes → Bool
  /-- How deep a function may call itself. -/
  stack : ℕ

/-- A system that refuses everything. -/
def Os.refusing : Os where
  opendir _ _ := none
  openFile _ _ := none
  mkdir _ _ := false
  remove _ _ := none
  rmdir _ _ := false
  stack := 0

/-- `ProcessState` -/
inductive ProcessState
  | quit
  | upload
  | login
  | parse
  deriving DecidableEq

/-- **A session.** -/
structure Session where
  processState : ProcessState
  filePart : ℕ
  parameter : Bytes
  commandOffset : ℕ
  directories : List Bytes
  files : List Bytes
  completePath : List Bytes
  deletedDirectories : List Bytes
  deletedFiles : List Bytes
  /-- The file that is open for writing. -/
  currentOpenFile : Option ℕ
  /-- What is left of the file that is open for reading. -/
  currentOpenReadFile : Option Bytes
  userInfo : UserInfo
  /-- What the files hold, where there are files. -/
  disk : ℕ → Option Bytes
  calls : List SysCall
  /-- What the socket answers to the writes to come. -/
  writes : List WriteResult
  sent : Bytes
  /-- `setDeleted(true)` has been called on the channel. -/
  deleted : Bool

/-- The content of a file; nothing where there is none. -/
def Session.content (s : Session) (f : ℕ) : Bytes := (s.disk f).getD []

/-- The files when one has been opened: it is emptied where it is written from its beginning, and
created where it is written at all. -/
def Session.opened (s : Session) (mode : OpenMode) (file : Option ℕ) : ℕ → Option Bytes :=
  match file, mode with
  | some f, .trunc => Function.update s.disk f (some [])
  | some f, .app => Function.update s.disk f (some (s.content f))
  | some _, .input | none, _ => s.disk

/-- The files when one has been removed. -/
def Session.removed (s : Session) : Option ℕ → ℕ → Option Bytes
  | some f => Function.update s.disk f none
  | none => s.disk

/-- A call to the system. -/
def sysCall {α : Type} (c : SysCall) (answer : ℕ → Bytes → α) : Program Session α := do
  let n ← .gets fun s => s.calls.length
  .modify fun s => { s with calls := s.calls ++ [c] }
  return answer n c.path

/-- `open`, of a file stream. -/
def openFile (os : Os) (mode : OpenMode) (path : Bytes) : Program Session (Option ℕ) := do
  let file ← sysCall (.openFile mode path) os.openFile
  .modify fun s => { s with disk := s.opened mode file }
  return file

/-- `remove`: whether a file could be removed. -/
def removeFile (os : Os) (path : Bytes) : Program Session Bool := do
  let file ← sysCall (.remove path) os.remove
  .modify fun s => { s with disk := s.removed file }
  return file.isSome

/-! ## Paths -/

/-- `SERVERROOTPATHSTRING` -/
def serverRootPath : Bytes := text "<root>/"

/-- **`getCurrentWorkingDir(false)`** -/
def workingDir (completePath : List Bytes) : Bytes := completePath.flatten

/-- `getCurrentWorkingDir(true)` -/
def shownWorkingDir : List Bytes → Bytes
  | [] => []
  | _ :: dirs => serverRootPath ++ dirs.flatten

/-- `getParentDir` -/
def getParentDir (completePath : List Bytes) : Bytes :=
  match completePath.reverse with
  | _ :: dir :: _ :: _ => dir
  | _ => serverRootPath

/-- `getValidDir` returns before it strips anything. -/
def getValidDir (dirName : Bytes) : Bytes := dirName

/-- `getValidFile` strips the slashes. -/
def getValidFile (fileName : Bytes) : Bytes := fileName.filter (· ≠ Chr.slash)

/-- `dirIsBelowServerRoot` -/
def dirIsBelowServerRoot (completePath : List Bytes) (dirName : Bytes) : Bool :=
  getValidDir dirName = text "../" && completePath.length < 2

/-! ## Directories -/

/-- **`dirCanBeOpened`** opens the same directory whatever its argument. -/
def dirCanBeOpened (os : Os) (_dir : Bytes) : Program Session Bool := do
  let dp ← sysCall (.opendir (text "./page/")) os.opendir
  return dp.isSome

/-- **`changeDir`** -/
def changeDir (os : Os) (newPath : Bytes) : Program Session Bool := do
  let newPath := getValidDir newPath
  let completePath ← .gets fun s => s.completePath
  if newPath = text ".." ∨ newPath = text "../" then
    if completePath.length ≤ 1 then return true
    else
      .modify fun s => { s with completePath := completePath.dropLast }
      return false
  else if newPath = text "." ∨ newPath = text "./" then return false
  else if ← dirCanBeOpened os (workingDir completePath ++ newPath) then
    .modify fun s => { s with completePath := completePath ++ [newPath] }
    return false
  else return true

/-- **`createDirectory`**: its answer, and the name it leaves in its argument. -/
def createDirectory (os : Os) (dirName : Bytes) : Program Session (Bool × Bytes) := do
  let dirName := getValidDir dirName
  let completePath ← .gets fun s => s.completePath
  if dirName = text "../" ∧ completePath.length ≤ 1 then return (true, text "./")
  else
    let ok ← sysCall (.mkdir (cString (workingDir completePath ++ dirName))) os.mkdir
    return (!ok, dirName)

/-- **`createFile`**: its answer, and the name it leaves in its argument. -/
def createFile (os : Os) (fileName : Bytes) : Program Session (Bool × Bytes) := do
  let fileName := getValidFile fileName
  let completePath ← .gets fun s => s.completePath
  let _ ← openFile os .app (cString (workingDir completePath ++ fileName))
  return (false, fileName)

/-- **`deleteFile`** -/
def deleteFile (os : Os) (fileName : Bytes) (strict : Bool) : Program Session Bool := do
  let fileName := if strict then getValidFile fileName else fileName
  let completePath ← .gets fun s => s.completePath
  let ok ← removeFile os (cString (workingDir completePath ++ fileName))
  if ok then
    .modify fun s => { s with deletedFiles := s.deletedFiles ++ [fileName] }
    return false
  else return true

/-- Which directory `browse` opens. -/
def browsed (completePath : List Bytes) (dir : Bytes) (strict : Bool) : Bytes :=
  let dir := if strict ∧ getValidDir dir = text "../" ∧ completePath.length ≤ 1 then text "./"
    else dir
  if dir = text "./" then workingDir completePath else workingDir completePath ++ dir

/-- **`browse`**: the directories and the files it finds. -/
def browse (os : Os) (dir : Bytes) (strict : Bool) :
    Program Session (List Bytes × List Bytes) := do
  let completePath ← .gets fun s => s.completePath
  let dir := browsed completePath dir strict
  if ← dirCanBeOpened os dir then
    match ← sysCall (.opendir (cString dir)) os.opendir with
    | none => .die
    | some entries =>
      let entries := entries.filter fun e => ¬(e.name = text ".." ∧ completePath.length ≤ 1)
      return ((entries.filter (·.isDir)).map (·.name), (entries.filter (!·.isDir)).map (·.name))
  else return ([], [])

/-- **`deleteDirectory`**, to a depth of so many calls. -/
def deleteDirectory (os : Os) : ℕ → Bytes → Bool → Bytes → Program Session Bool
  | 0, _, _, _ => .die
  | depth + 1, dirName, cancel, pathToDir =>
    if cancel then return true
    else do
      let pathToDir := pathToDir ++ getValidFile dirName
      let (directories, files) ← browse os pathToDir false
      let cancel ← files.foldlM (fun cancel file => do
        let failed ← deleteFile os (pathToDir ++ file) false
        return failed || cancel) cancel
      let cancel ← directories.foldlM (fun cancel directory =>
        if directory = text "." ∨ directory = text ".." then return cancel
        else do
          let failed ← deleteDirectory os depth (directory ++ text "/") cancel pathToDir
          return failed || cancel) cancel
      if pathToDir ≠ text "." ∧ pathToDir ≠ text ".." then
        let completePath ← .gets fun s => s.completePath
        let ok ← sysCall (.rmdir (cString (workingDir completePath ++ pathToDir))) os.rmdir
        if ok then
          .modify fun s => { s with deletedDirectories := s.deletedDirectories ++ [pathToDir] }
      return cancel

end WebServer.Ftp
