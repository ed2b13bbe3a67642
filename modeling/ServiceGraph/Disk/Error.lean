namespace ServiceGraph

inductive DiskError where
  | notFound
  | isDirectory
  | notDirectory
  | denied
  | nameTooLong
  /-- A path with a character that no name can have. -/
  | badName
  | notText
  deriving DecidableEq

def DiskError.message : DiskError → String
  | notFound => "No such file or directory (os error 2)"
  | isDirectory => "Is a directory (os error 21)"
  | notDirectory => "Not a directory (os error 20)"
  | denied => "Permission denied (os error 13)"
  | nameTooLong => "File name too long (os error 36)"
  | badName => "file name contained an unexpected NUL byte"
  | notText => "stream did not contain valid UTF-8"

end ServiceGraph
