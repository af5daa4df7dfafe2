import Relata.Script.Site
import Relata.Shop.Seed
import Relata.Text.Identity
import Std.Time.DateTime.Timestamp

/-! # The program that fills a shop

Reads the options, fills a store that lives as long as the program, and prints what
was said. Time and chance come in here, and nowhere else.
-/

namespace Relata.Shop

def printLines (lines : List String) : IO Unit :=
  lines.forM IO.println

/-- The failure goes where it does not mix with the lines. -/
def stop (f : Failure) : IO UInt32 := do
  IO.eprintln ("Error: " ++ f.message)
  return 1

def runSeed (o : Options) (c : Client) : IO UInt32 := do
  let start ← Std.Time.Timestamp.now
  let now : Instant := ⟨start.toSecondsSinceUnixEpoch.val, 0⟩
  let chance ← IO.rand 0 (Nat.pow 36 7)
  let fresh (n : Nat) : String :=
    Text.Identity.make start.toMillisecondsSinceUnixEpoch.val.toNat (chance + n)
  let began ← IO.monoMsNow
  let session := Session.ofDatabase { tables := [], now := now.text }
  let ((lines, filled), session) := session.run (fill c now fresh o.count).heard
  printLines lines
  match filled with
  | .error f => stop f
  | .ok false => return 0
  | .ok true =>
    let elapsed := (← IO.monoMsNow) - began
    let ((lines, shown), _) := session.run (display c o.count (elapsed.repr ++ "ms")).heard
    printLines lines
    match shown with
    | .error f => stop f
    | .ok _ => return 0

def runWith (args : List String) : IO UInt32 := do
  let o := Options.read {} args
  if o.help then
    printLines usage
    return 0
  else
    printLines (banner o)
    match schema with
    | .error f => stop (.fault f)
    | .ok schema =>
      match Client.connect { path := o.path } schema with
      | .error f => stop f
      | .ok c => runSeed o c

end Relata.Shop

def main (args : List String) : IO UInt32 :=
  Relata.Shop.runWith args
