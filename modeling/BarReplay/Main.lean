import BarReplay.CommandLine.Run
import BarReplay.Machine

namespace BarReplay

-- A failure of the file system as a file error. What `path` is decides which one it is.
def fileErrorAt (path : FilePath) (wantsFile : Bool) (e : IO.Error) : IO FileError := do
  let place := (← IO.currentDir) / path.text
  if wantsFile && (← place.isDir) then return .isDirectory path
  else if !(← place.pathExists) then return .missing path
  else if !wantsFile then return .notDirectory path
  else return .failed (toString e)

def guarded {β : Type} (path : FilePath) (wantsFile : Bool) (action : IO β) :
    IO (Except FileError β) := do
  try
    return .ok (← action)
  catch e =>
    return .error (← fileErrorAt path wantsFile e)

-- The files of the machine.
def machineFiles : FileAccess IO where
  has path := return .ok (← ((← IO.currentDir) / path.text).pathExists)
  read path := guarded path true do return (← IO.FS.readBinFile path.text).toList
  list path := guarded path false do
    let entries ← ((← IO.currentDir) / path.text).readDir
    let files ← entries.filterM fun entry => return !(← entry.path.isDir)
    return (files.map (·.fileName)).toList
  write path text := guarded path true (IO.FS.writeFile path.text text)

-- There is no net here: every request stays without an answer.
def noNet : Yahoo.Net IO where
  get _ _ := return .error "no connection to the net"
  clearCookies := return ()
  sleep seconds := IO.sleep (seconds.toNat * 1000).toUInt32

def world : CommandLine.World (StateT Yahoo.Crumb IO) :=
  ⟨machineFiles.lifted, (Yahoo.Client.standard Machine.reader).chart noNet, Machine.statistics⟩

def usageText : String :=
  "usage: backtester [-h] (backtest | validate | list-symbols) ..."

end BarReplay

open BarReplay in
def main (args : List String) : IO UInt32 := do
  match CommandLine.Command.parse false args with
  | .error u =>
    if u = .help then IO.println usageText else IO.eprintln usageText
    return u.exitCode.toUInt32
  | .ok command =>
    match (← (command.run world).run none).1 with
    | .ok o =>
      IO.print o.out
      IO.eprint o.err
      return o.exitCode.toUInt32
    | .error cause =>
      IO.eprintln cause.message
      return 1
