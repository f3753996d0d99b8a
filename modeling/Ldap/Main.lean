import Ldap.Server.Basic

/-! The command line: serves one client, whose bytes come on standard input, with the standard
configuration, and writes what is sent to it to standard output. -/

namespace Ldap

/-- Reads a stream to its end. -/
partial def readAll (input : IO.FS.Stream) (got : ByteArray) : IO ByteArray := do
  let chunk ← input.read 65536
  if chunk.isEmpty then return got else readAll input (got ++ chunk)

end Ldap

def main : IO UInt32 := do
  match Ldap.Server.ofConfig {} with
  | .error e =>
    (← IO.getStderr).putStrLn e.message
    return 1
  | .ok server =>
    let request ← Ldap.readAll (← IO.getStdin) .empty
    let (written, _) := server.bound.serve [.bytes request.toList]
    let output ← IO.getStdout
    output.write ⟨written.toArray⟩
    output.flush
    return 0
