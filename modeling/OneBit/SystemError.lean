namespace OneBit

inductive SystemError where
  | notFound
  | notDirectory
  | isDirectory
  /-- The directory at the path is in use. -/
  | busy
  | nameTooLong
  /-- The path has a zero byte, which no name can hold. -/
  | zeroByte
  /-- The bytes of a text file are not UTF-8. -/
  | notText
  | other (description : String)
  deriving DecidableEq, Repr

def SystemError.message : SystemError → String
  | .notFound => "No such file or directory (os error 2)"
  | .notDirectory => "Not a directory (os error 20)"
  | .isDirectory => "Is a directory (os error 21)"
  | .busy => "Device or resource busy (os error 16)"
  | .nameTooLong => "File name too long (os error 36)"
  | .zeroByte => "file name contained an unexpected NUL byte"
  | .notText => "stream did not contain valid UTF-8"
  | .other description => description

end OneBit
