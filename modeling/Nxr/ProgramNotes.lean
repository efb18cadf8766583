-- What a program that runs alone leaves in a log of its operations, in the order of the
-- calls.
import Nxr.Programs

namespace programs

variable {Op : Type → Type} {α β γ σ ν : Type}

section Notes

variable (exec : (β : Type) → Op β → σ → Option (β × σ)) (note : (β : Type) → Op β → β → List ν)

variable {exec note} {s s' : σ}

end Notes

end programs
