import RustCardano.Packer
import RustCardano.Key
import RustCardano.Setting
import RustCardano.Witness
import RustCardano.Role
import RustCardano.Block
import RustCardano.Cbor
import RustCardano.HdPayload
import RustCardano.Initial
