import RocketPuzzle.Codec.Level

/-! # Settings

The settings file has one section, the pacing. Other sections are refused, other fields in the
section are passed over.
-/
namespace RocketPuzzle

structure Config where
  pacing : Pacing := {}
  deriving DecidableEq, Repr

namespace Config

def fieldNames : List String := ["pacing"]

/-- Every field is one that the settings have. -/
def isClosed : Datum → Bool
  | .table fields => fields.all fun f => f.1.any (· ∈ fieldNames)
  | _ => true

def decode : Decoder Config := fun p d => do
  let r ← Record.read fieldNames p d
  if isClosed d then return ⟨← r.optional "pacing" {} Pacing.decode⟩ else none

end Config

end RocketPuzzle
