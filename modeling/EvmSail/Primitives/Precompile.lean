/-
# `EvmSail.Primitives.Precompile` — which addresses are precompiles

The addresses of the precompiled contracts and the forks they are active
from.  What they compute is not modelled here.
-/
import EvmSail.Primitives.Profile

namespace EvmSail

inductive PrecompileId where
  | notPrecompile
  | ecrecover
  | sha256
  | ripemd160
  | identity
  | modexp
  | bn254Add
  | bn254Mul
  | bn254Pairing
  | blake2f
  | kzgPointEvaluation
  | blsG1Add
  | blsG1Msm
  | blsG2Add
  | blsG2Msm
  | blsPairing
  | blsMapFpToG1
  | blsMapFp2ToG2
  | p256Verify
  deriving DecidableEq

def precompileActiveAtFork (fork : Fork) : PrecompileId → Bool
  | .notPrecompile => false
  | .ecrecover | .sha256 | .ripemd160 | .identity => true
  | .modexp | .bn254Add | .bn254Mul | .bn254Pairing => decide (.byzantium ≤ fork)
  | .blake2f => decide (.istanbul ≤ fork)
  | .kzgPointEvaluation => decide (.cancun ≤ fork)
  | .blsG1Add | .blsG1Msm | .blsG2Add | .blsG2Msm | .blsPairing | .blsMapFpToG1
  | .blsMapFp2ToG2 => decide (.prague ≤ fork)
  | .p256Verify => decide (.osaka ≤ fork)

def precompileIdIfActive (fork : Fork) (candidate : PrecompileId) : PrecompileId :=
  if precompileActiveAtFork fork candidate then candidate else .notPrecompile

/-- The active precompile at an address. -/
def precompileIdForAddress (fork : Fork) (a : Address) : PrecompileId :=
  match a.toNat with
  | 1 => precompileIdIfActive fork .ecrecover
  | 2 => precompileIdIfActive fork .sha256
  | 3 => precompileIdIfActive fork .ripemd160
  | 4 => precompileIdIfActive fork .identity
  | 5 => precompileIdIfActive fork .modexp
  | 6 => precompileIdIfActive fork .bn254Add
  | 7 => precompileIdIfActive fork .bn254Mul
  | 8 => precompileIdIfActive fork .bn254Pairing
  | 9 => precompileIdIfActive fork .blake2f
  | 10 => precompileIdIfActive fork .kzgPointEvaluation
  | 11 => precompileIdIfActive fork .blsG1Add
  | 12 => precompileIdIfActive fork .blsG1Msm
  | 13 => precompileIdIfActive fork .blsG2Add
  | 14 => precompileIdIfActive fork .blsG2Msm
  | 15 => precompileIdIfActive fork .blsPairing
  | 16 => precompileIdIfActive fork .blsMapFpToG1
  | 17 => precompileIdIfActive fork .blsMapFp2ToG2
  | 256 => precompileIdIfActive fork .p256Verify
  | _ => .notPrecompile

end EvmSail
