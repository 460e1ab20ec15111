import WebServer.Ftp.FileOperator

/-!
# Ftp/FtpConnection — the session of one client

`handleRead` calls the function of the state the session is in; `login`, `commandParser` and
`upload` read whatever the socket holds.  The command parser first finds out which command it has
been sent, then runs it.  What it prints to the terminal is left out.
-/

namespace WebServer.Ftp

open Utility (ReadResult WriteResult)

/-! ## The socket -/

/-- `readn` -/
def readn (rs : List ReadResult) : Utility.ReadReport := Utility.read rs []

/-- **`writen`**, either overload. -/
def writen (b : Bytes) : Program Session Unit :=
  .modify fun s => { s with
    sent := s.sent ++ (Utility.write s.writes b).accepted
    writes := (Utility.write s.writes b).rest }

/-- The loop of `sendToClient`: what the socket takes, and the answers that are left. -/
def sendLoop : List WriteResult → Bytes → Bytes × List WriteResult
  | rs, [] => ([], rs)
  | [], b => (b, [])
  | .accept n :: rs, b =>
    if n = 0 then ([], rs)
    else (b.take n ++ (sendLoop rs (b.drop n)).1, (sendLoop rs (b.drop n)).2)
  | _ :: rs, _ => ([], rs)

/-- **`sendToClient`** -/
def sendToClient (response : Bytes) : Program Session Unit :=
  .modify fun s => { s with
    sent := s.sent ++ (sendLoop s.writes response).1
    writes := (sendLoop s.writes response).2 }

/-! ## Commands -/

/-- `%` -/
abbrev percent : UInt8 := 37

/-- `tolower` -/
def toLower (c : UInt8) : UInt8 := if 65 ≤ c ∧ c ≤ 90 then c + 32 else c

/-- **`commandEquals`** finds one string in another. -/
def commandEquals (a b : Bytes) : Bool := (findStr b (a.map toLower)).isSome

/-- `size - n` in a `size_t`, as the length of a part of a string. -/
def lengthFrom (size n : ℕ) : StrPos := if n ≤ size then some (size - n) else none

/-- **`extractParameters`**: the command, and its parameter if it has one.  Without a separator
`pos` is `npos`, and `pos + 1` is `0`. -/
def extractParameters (commandOffset : ℕ) (command : Bytes) : List Bytes :=
  match findChar command Chr.space (some 0) with
  | some pos =>
    command.take pos ::
      if command.length > pos + 1 then
        [substr command (pos + 1) (lengthFrom command.length (pos + commandOffset))]
      else []
  | none =>
    if command.length > 0 then [substr command 0 (lengthFrom (command.length + 1) commandOffset)]
    else []

/-- What the command parser makes of what it reads. -/
inductive Command
  | ls (dir : Bytes)
  | pwd
  | getparentdir
  | quit
  | download (file : Bytes)
  | upload (file : Bytes)
  | cd (dir : Bytes)
  | mkdir (dir : Bytes)
  | rmdir (dir : Bytes)
  | touch (file : Bytes)
  | unknown
  deriving DecidableEq

/-- **The command**, without a parameter or with one; nothing where the code reads past the end of
an empty vector. -/
def Command.of : List Bytes → Option Command
  | [] => none
  | [cmd] => some (
    if commandEquals cmd (text "list") ∨ commandEquals cmd (text "ls") then .ls (text "./")
    else if commandEquals cmd (text "pwd") then .pwd
    else if commandEquals cmd (text "getparentdir") then .getparentdir
    else if commandEquals cmd (text "quit") then .quit
    else .unknown)
  | cmd :: parameter :: _ => some (
    if commandEquals cmd (text "ls") then .ls parameter
    else if commandEquals cmd (text "download") then .download parameter
    else if commandEquals cmd (text "upload") then .upload parameter
    else if commandEquals cmd (text "cd") then .cd parameter
    else if commandEquals cmd (text "mkdir") then .mkdir parameter
    else if commandEquals cmd (text "rmdir") then .rmdir parameter
    else if commandEquals cmd (text "touch") then .touch parameter
    else .unknown)

/-- A list of directories, and a list of files, as an answer shows them. -/
def listed (directories files : List Bytes) : Bytes :=
  let res := directories.flatMap (· ++ text "/ ")
  (if res = [] then res else res ++ text "\n") ++ files.flatMap (· ++ text " ")

/-- The answer to a command, and the state that follows it. -/
def answer (res : Bytes) : Program Session ProcessState := do
  writen (res ++ text "\n")
  return .parse

/-! ## Download and upload -/

/-- The size of the buffer of `download`. -/
def bufferSize : ℕ := 4096

/-- **The loop of `download`**, on what is left of the file: what it writes to the socket.  A read
that finds less than a buffer's worth makes the stream test false. -/
def downloadLoop (content : Bytes) : Program Session Unit :=
  if content.length < bufferSize then return
  else do
    writen (content.take bufferSize)
    downloadLoop (content.drop bufferSize)
termination_by content.length
decreasing_by
  rw [List.length_drop, bufferSize] at *
  omega

/-- **`download`** -/
def download (os : Os) : Program Session ProcessState := do
  let completePath ← .gets fun s => s.completePath
  let parameter ← .gets fun s => s.parameter
  let file ← openFile os .input (cString (workingDir completePath ++ parameter))
  match file with
  | none =>
    sendToClient (text "Open file failed, ensure you enter a correct fileName \n")
    return .parse
  | some f =>
    let content ← .gets fun s => s.content f
    .modify fun s => { s with currentOpenReadFile := some content }
    downloadLoop content
    .modify fun s => { s with currentOpenReadFile := none }
    return .parse

/-- **`upload`** -/
def upload (rs : List ReadResult) : Program Session ProcessState := do
  let report := readn rs
  if report.buffer = crlf then
    .modify fun s => { s with currentOpenFile := none, filePart := 0 }
    return .parse
  else if report.count < 0 ∨ report.isReadZeroBytes then
    .modify fun s => { s with currentOpenFile := none }
    return .quit
  else
    match ← .gets fun s => s.currentOpenFile with
    | none => return .quit
    | some f =>
      .modify fun s => { s with
        disk := Function.update s.disk f (some (s.content f ++ report.buffer))
        filePart := s.filePart + 1 }
      return .upload

/-! ## The command parser -/

/-- **What each command does.** -/
def execute (os : Os) : Command → Program Session ProcessState
  | .ls dir => do
    let (directories, files) ← browse os dir true
    .modify fun s => { s with directories, files }
    answer (listed directories files)
  | .pwd => do
    let completePath ← .gets fun s => s.completePath
    answer (shownWorkingDir completePath)
  | .getparentdir => do
    let completePath ← .gets fun s => s.completePath
    answer (getParentDir completePath)
  | .quit => return .quit
  | .download _ => download os
  | .upload file => do
    let completePath ← .gets fun s => s.completePath
    let opened ← openFile os .trunc (cString (workingDir completePath ++ file))
    .modify fun s => { s with currentOpenFile := opened }
    return .upload
  | .cd dir => do
    let _ ← changeDir os dir
    let completePath ← .gets fun s => s.completePath
    answer (shownWorkingDir completePath)
  | .mkdir dir => do
    let (failed, dir) ← createDirectory os dir
    .modify fun s => { s with parameter := dir }
    answer (if failed then text "//" else dir)
  | .rmdir dir => do
    let completePath ← .gets fun s => s.completePath
    if dirIsBelowServerRoot completePath dir then answer (text "failure")
    else
      .modify fun s => { s with
        directories := [], files := [], deletedDirectories := [], deletedFiles := [] }
      let _ ← deleteDirectory os os.stack dir false []
      .modify fun s => { s with directories := s.deletedDirectories, files := s.deletedFiles }
      let directories ← .gets fun s => s.directories
      let files ← .gets fun s => s.files
      answer (text "deleted list : \n" ++ directories.flatMap (· ++ text "/ ") ++ text "\n"
        ++ files.flatMap (· ++ text " "))
  | .touch file => do
    let (failed, file) ← createFile os file
    .modify fun s => { s with parameter := file }
    answer (if failed then text "//" else file)
  | .unknown => do
    writen (text "Unknown command! \n")
    return .parse

/-- **`commandParser`** -/
def commandParser (os : Os) (rs : List ReadResult) : Program Session ProcessState := do
  let report := readn rs
  if report.count < 0 ∨ report.isReadZeroBytes then return .quit
  else
    let commandOffset ← .gets fun s => s.commandOffset
    let commandAndParameter := extractParameters commandOffset report.buffer
    .modify fun s => { s with parameter := commandAndParameter.getD 1 s.parameter }
    match Command.of commandAndParameter with
    | none => .die
    | some command => execute os command

/-! ## Logging in and out -/

/-- **The name and the password** in a message `%name%password`, with positions that may be
`npos`. -/
def credentials (userInfo : Bytes) : Bytes × Bytes :=
  let f := findChar userInfo percent (some 0)
  let s := findChar userInfo percent (some f.succ)
  let count : StrPos := match f, s with
    | some p, some q => some (q - p - 1)
    | _, _ => none
  (substr userInfo f.succ count, substr userInfo s.succ none)

/-- `login` -/
def login (rs : List ReadResult) : Program Session ProcessState := do
  let report := readn rs
  if report.count < 0 ∨ report.isReadZeroBytes then return .quit
  else
    let commandOffset ← .gets fun s => s.commandOffset
    -- `resize` throws where the new size wraps, and fills up with a null.
    if report.buffer.length + 1 < commandOffset then .die
    else
      let userInfo := (report.buffer ++ [0]).take (report.buffer.length + 1 - commandOffset)
      let table ← .gets fun s => s.userInfo
      if UserManager.login table (credentials userInfo).1 (credentials userInfo).2 then
        writen (text "UserInfo correct and enter your cmd :\n")
        return .parse
      else
        writen (text "your userName or key is incorrect\n")
        return .quit

/-- `quit` -/
def quit : Program Session ProcessState := do
  sendToClient (text "connection closed now\n")
  .modify fun s => { s with deleted := true }
  return .quit

/-- `callBackFunc` -/
def callBackFunc (os : Os) (rs : List ReadResult) : ProcessState → Program Session ProcessState
  | .quit => quit
  | .upload => upload rs
  | .login => login rs
  | .parse => commandParser os rs

/-- **`handleRead`** -/
def handleRead (os : Os) (rs : List ReadResult) : Program Session Unit := do
  let processState ← .gets fun s => s.processState
  let processState ← callBackFunc os rs processState
  .modify fun s => { s with processState }
  if processState = .quit then
    let _ ← callBackFunc os [] .quit
  return

/-- One `handleRead` for each read that the transport makes of the stream. -/
def handleReads (os : Os) (reads : List Bytes) : Program Session Unit :=
  reads.foldlM (fun _ segment => handleRead os (Utility.deliver segment)) ()

section HandleRead

variable {os : Os} {rs : List ReadResult} {s s' : Session} {p : ProcessState}

/-- A read that does not end the session. -/
theorem handleRead_of_some (h : callBackFunc os rs s.processState s = (some p, s'))
    (hp : p ≠ .quit) : handleRead os rs s = (some (), { s' with processState := p }) := by
  rw [handleRead, Program.gets_bind, Program.bind_of_some h, Program.modify_bind, if_neg hp]
  rfl

/-- A read that ends it. -/
theorem handleRead_of_quit (h : callBackFunc os rs s.processState s = (some .quit, s')) :
    handleRead os rs s = (some (), (quit { s' with processState := .quit }).2) := by
  rw [handleRead, Program.gets_bind, Program.bind_of_some h, Program.modify_bind, if_pos rfl]
  rfl

theorem readn_deliver (m : Bytes) : readn (Utility.deliver m) = ⟨m.length, m, false, []⟩ := by
  rw [readn, Utility.read_deliver, List.nil_append]

/-- The bytes of a read that brings some are not an error. -/
theorem not_failed_deliver (m : Bytes) :
    ¬((readn (Utility.deliver m)).count < 0 ∨ (readn (Utility.deliver m)).isReadZeroBytes) := by
  rw [readn_deliver]
  exact not_or.mpr ⟨Int.not_lt.mpr (Int.natCast_nonneg _), Bool.false_ne_true⟩

/-- A command is run with its parameter in place. -/
theorem commandParser_of_some {command : Command}
    (hok : ¬((readn rs).count < 0 ∨ (readn rs).isReadZeroBytes))
    (hc : Command.of (extractParameters s.commandOffset (readn rs).buffer) = some command) :
    commandParser os rs s = execute os command { s with parameter :=
      (extractParameters s.commandOffset (readn rs).buffer).getD 1 s.parameter } := by
  rw [commandParser, if_neg hok, Program.gets_bind, Program.modify_bind, hc]

/-- The end mark closes the file. -/
theorem upload_of_crlf (h : (readn rs).buffer = crlf) :
    upload rs s = (some .parse, { s with currentOpenFile := none, filePart := 0 }) := by
  rw [upload, if_pos h]
  rfl

/-- A read that fails closes it too. -/
theorem upload_of_failed (h : (readn rs).buffer ≠ crlf)
    (hf : (readn rs).count < 0 ∨ (readn rs).isReadZeroBytes) :
    upload rs s = (some .quit, { s with currentOpenFile := none }) := by
  rw [upload, if_neg h, if_pos hf]
  rfl

theorem upload_of_closed (h : (readn rs).buffer ≠ crlf)
    (hf : ¬((readn rs).count < 0 ∨ (readn rs).isReadZeroBytes)) (hs : s.currentOpenFile = none) :
    upload rs s = (some .quit, s) := by
  rw [upload, if_neg h, if_neg hf, Program.gets_bind, hs]
  rfl

/-- **What is read goes to the file** that is open. -/
theorem upload_of_open {f : ℕ} (h : (readn rs).buffer ≠ crlf)
    (hf : ¬((readn rs).count < 0 ∨ (readn rs).isReadZeroBytes)) (hs : s.currentOpenFile = some f) :
    upload rs s = (some .upload, { s with
      disk := Function.update s.disk f (some (s.content f ++ (readn rs).buffer))
      filePart := s.filePart + 1 }) := by
  rw [upload, if_neg h, if_neg hf, Program.gets_bind]
  conv_lhs => rw [hs]
  rfl

end HandleRead

/-- **`ftpConnection::ftpConnection`**, with the socket as it is. -/
def Session.new (userInfo : UserInfo) (defaultDir : Bytes) (commandOffset : ℕ)
    (disk : ℕ → Option Bytes) (writes : List WriteResult) : Session where
  processState := .login
  filePart := 0
  parameter := []
  commandOffset := commandOffset
  directories := []
  files := []
  completePath := [defaultDir]
  deletedDirectories := []
  deletedFiles := []
  currentOpenFile := none
  currentOpenReadFile := none
  userInfo := userInfo
  disk := disk
  calls := []
  writes := writes
  sent := []
  deleted := false

end WebServer.Ftp
