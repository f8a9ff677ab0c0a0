import Firmware.Stream.Cache
import Firmware.Stream.Requestor

namespace Firmware

inductive Tier (δ θ : Type) where
  | payloads (p : Payloads)
  | cache (c : Cache δ)
  | peer (q : Requestor θ)

namespace Tier

variable {δ θ σ : Type}

def streaming [Source σ] (wrap : σ → Tier δ θ) (s : σ) (uri : Text) (o : StreamOptions) :
    Feed (Except Failure Unit × Tier δ θ) := do
  let (r, s) ← Source.stream s uri o
  return (r, wrap s)

instance [Flash δ] [Transport θ] : Source (Tier δ θ) where
  supports _ _ := true
  stream
    | payloads p => streaming payloads p
    | cache c => streaming cache c
    | peer q => streaming peer q

end Tier

end Firmware
