import DocumentPreview.Database.Store

namespace DocumentPreview.Migration

def sendAll : List Statement → DatabaseProgram (Except DatabaseError Unit) →
    DatabaseProgram (Except DatabaseError Unit)
  | [], next => next
  | s :: rest, next =>
    .call (.execute s) fun
      | .ok _ => sendAll rest next
      | .error e => .done (.error (.migrating e))

def finish : DatabaseProgram (Except DatabaseError Unit) :=
  sendAll [.unlock] (.done (.ok ()))

def apply (version : Nat) : DatabaseProgram (Except DatabaseError Unit) :=
  sendAll [.beginChange]
    (.call (.execute .createJobs) fun
      | .ok _ => sendAll [.recordVersion version, .commit, .recordDuration version] finish
      | .error e => .done (.error (.migration version e)))

def run : DatabaseProgram (Except DatabaseError Unit) :=
  sendAll [.createVersions, .currentDatabase, .lock, .unfinishedVersion]
    (.call (.execute .versions) fun
      | .ok versions =>
        if List.contains versions Statement.jobsVersion then finish else apply Statement.jobsVersion
      | .error e => .done (.error (.migrating e)))

end DocumentPreview.Migration
