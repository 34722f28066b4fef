import Mathlib.Data.List.Basic

/-!
# Constants

The limits, commands and response codes shared by the client and the server
(`common/constants.h`). Strings and byte vectors are lists of bytes.
-/

namespace UserDirectory

/-- A `std::string` or a `vector<uint8_t>`. -/
abbrev Bytes := List UInt8

/-- The bytes of an ASCII literal. -/
def ascii (s : String) : Bytes := s.toList.map fun c => UInt8.ofNat c.toNat

/-- Maximum length of a user name. -/
def lenUname : ℕ := 32

/-- Maximum length of a user's actual password. -/
def lenPassword : ℕ := 32

/-- Maximum length of a user's profile file. -/
def lenProfileFile : ℕ := 1048576

/-! ## Commands -/

/-- Request the creation of a new user. -/
def reqReg : Bytes := ascii "REG_"

/-- Force the server to stop. -/
def reqBye : Bytes := ascii "EXIT"

/-- Force the server to send all its data to disk. -/
def reqSav : Bytes := ascii "SAVE"

/-- Allow a user to set their profile content. -/
def reqSet : Bytes := ascii "SETP"

/-- Allow a user to request a user's profile content. -/
def reqGet : Bytes := ascii "GETP"

/-- Get all user names. -/
def reqAll : Bytes := ascii "ALL_"

/-- The commands, in the order in which the server compares them. -/
def commands : List Bytes := [reqReg, reqBye, reqSav, reqSet, reqGet, reqAll]

/-! ## Response codes -/

/-- The command was successful. -/
def resOk : Bytes := ascii "OK__"

/-- The registered user already exists. -/
def resErrUserExists : Bytes := ascii "ERR_USER_EXISTS"

/-- The client gave a bad username or password. -/
def resErrLogin : Bytes := ascii "ERR_LOGIN"

/-- The client request was improperly formatted. -/
def resErrReqFmt : Bytes := ascii "ERR_REQ_FMT"

/-- There is no data to send back. -/
def resErrNoData : Bytes := ascii "ERR_NO_DATA"

/-- The user being looked up is invalid. -/
def resErrNoUser : Bytes := ascii "ERR_NO_USER"

/-- The server had an internal error, such as a bad read from a file. -/
def resErrServer : Bytes := ascii "ERR_SERVER"

/-- The 4-byte code written to disk before each entry of the authentication table. -/
def authentry : Bytes := ascii "AUTH"

@[simp] theorem length_resOk : resOk.length = 4 := rfl

@[simp] theorem length_authentry : authentry.length = 4 := rfl

end UserDirectory
