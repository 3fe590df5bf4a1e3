import OdsAccess.OnChain.Sample

namespace OdsAccess
open FixedBytes
set_option autoImplicit true

section
variable [Digests]

variable {ensureSortedAndInsert : List AccountId → AccountId → Option (List AccountId)}

end

namespace Paseo

end Paseo

end OdsAccess
