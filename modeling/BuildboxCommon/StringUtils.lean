import BuildboxCommon.CommandLine.Parse
import Mathlib.Data.List.DropRight

set_option autoImplicit false

namespace BuildboxCommon.StringUtils

open ByteString

-- `isspace` of the C locale, where the caller hands no other filter over. A byte above 127 is a negative `char`, which
-- C leaves undefined; glibc takes it for no space.
abbrev isspace : UInt8 → Bool := CommandLine.isSpace

def ltrim (s : Bytes) (filter : UInt8 → Bool) : Bytes := s.dropWhile filter

def rtrim (s : Bytes) (filter : UInt8 → Bool) : Bytes := s.rdropWhile filter

def trim (s : Bytes) (filter : UInt8 → Bool) : Bytes := rtrim (ltrim s filter) filter

end BuildboxCommon.StringUtils
