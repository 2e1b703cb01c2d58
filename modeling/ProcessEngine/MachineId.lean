import ProcessEngine.Codec.Sha256

/-!
# Machine ids

Where the settings give no machine id, it is derived from the names of the
machine and of its user.
-/

namespace ProcessEngine

/-- The text that a machine id is derived from. -/
def machineText (hostname user : String) : String :=
  "HOSTNAME=" ++ hostname ++ "\x00" ++ "USER=" ++ user ++ "\x00"

/-- The first two bytes of the digest of the names, as one number. -/
def machineId (hostname user : String) : Nat :=
  match Sha256.digest (machineText hostname user).toUTF8.toList with
  | a :: b :: _ => a.toNat * 256 + b.toNat
  | _ => 0

end ProcessEngine
